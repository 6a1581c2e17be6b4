import TableStore.Filter.Predicate
import TableStore.Json.Value

/-!
# Predicates in JSON

A conjunction, disjunction or negation is an object whose only member is `$and`, `$or` or `$not`;
all else is a comparison with the fields `column`, `op` and `value`. A predicate is read only from
a tree that is readable as a whole, parts that are otherwise ignored included.
-/

namespace TableStore

/-- The operator that a tree spells. -/
def Operator.ofJson? (tree : Json) : Option Operator :=
  tree.choice?.bind Operator.ofSymbol?

namespace Comparison

/-- A comparison in JSON. -/
def toJson (comparison : Comparison) : Json :=
  Json.ofFields [("column", Json.ofText comparison.column),
    ("op", Json.ofText comparison.op.symbol), ("value", comparison.value.toJson)]

/-- The comparison that a tree spells. -/
def ofJson? (tree : Json) : Option Comparison :=
  match tree.fields? ["column", "op", "value"] with
  | some [column, op, value] =>
    match column.text?, Operator.ofJson? op, Value.ofJson? value with
    | some column, some op, some value => some ⟨column, op, value⟩
    | _, _, _ => none
  | _ => none

end Comparison

namespace Predicate

mutual

/-- A predicate in JSON. -/
def toJson : Predicate → Json
  | .compare comparison => comparison.toJson
  | .all conditions => .object [(some "$and", .array (toJsonItems conditions))]
  | .any conditions => .object [(some "$or", .array (toJsonItems conditions))]
  | .not condition => .object [(some "$not", toJson condition)]

/-- Predicates in JSON. -/
def toJsonItems : List Predicate → List Json
  | [] => []
  | condition :: rest => toJson condition :: toJsonItems rest

end

mutual

/-- The predicate that a tree spells. An object whose only member is one of the three connectives
has too few fields for a comparison, so a connective that does not fit is no predicate. -/
def ofTree? : Json → Option Predicate
  | .object [(some "$and", .array items)] => (ofItems? items).map .all
  | .object [(some "$or", .array items)] => (ofItems? items).map .any
  | .object [(some "$not", item)] => (ofTree? item).map .not
  | tree => (Comparison.ofJson? tree).map .compare

/-- The predicates that items spell. -/
def ofItems? : List Json → Option (List Predicate)
  | [] => some []
  | item :: rest =>
    match ofTree? item, ofItems? rest with
    | some condition, some conditions => some (condition :: conditions)
    | _, _ => none

end

/-- The predicate that a readable tree spells. -/
def ofJson? (tree : Json) : Option Predicate :=
  if tree.isReadable then ofTree? tree else none

end Predicate

end TableStore
