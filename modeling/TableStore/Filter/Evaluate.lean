import TableStore.Filter.Check

/-!
# Evaluating predicates

A comparison holds of an item if the item has a value in the column and the order of that value
and the literal is what the operator asks for. Numbers of both types are compared as floating
point numbers, texts by their bytes; a NaN is in no order with anything, and so differs from it.
-/

namespace TableStore

/-- The order of a stored value and a literal; none with a NaN, and for values of types that
cannot be compared. -/
def Value.compare? : (stored literal : Value) → Option Ordering
  | .integer a, .integer b => some (compare a b)
  | .integer a, .float b => (Binary64.ofInt a.toInt).compare? b
  | .float a, .integer b => a.compare? (Binary64.ofInt b.toInt)
  | .float a, .float b => a.compare? b
  | .text a, .text b => some (Utf8.order a b)
  | .boolean a, .boolean b => some (compare a b)
  | _, _ => none

/-- Whether an operator accepts an order. -/
def Operator.accepts : Operator → Option Ordering → Bool
  | .eq, order => order == some .eq
  | .ne, order => order != some .eq
  | .gt, order => order == some .gt
  | .gte, order => order == some .gt || order == some .eq
  | .lt, order => order == some .lt
  | .lte, order => order == some .lt || order == some .eq

/-- Whether a comparison holds of an item. -/
def Comparison.holds (item : Item) (comparison : Comparison) : Bool :=
  match item[comparison.column]? with
  | some stored => comparison.op.accepts (stored.compare? comparison.value)
  | none => false

namespace Predicate

mutual

/-- Whether a predicate holds of an item. -/
def holds (item : Item) : Predicate → Bool
  | .compare comparison => comparison.holds item
  | .all conditions => allHold item conditions
  | .any conditions => someHolds item conditions
  | .not condition => !holds item condition

/-- Whether all predicates hold. -/
def allHold (item : Item) : List Predicate → Bool
  | [] => true
  | condition :: rest => holds item condition && allHold item rest

/-- Whether at least one predicate holds. -/
def someHolds (item : Item) : List Predicate → Bool
  | [] => false
  | condition :: rest => holds item condition || someHolds item rest

end

/-- Whether a predicate holds of an item, after checking it against the schema. -/
def evaluate (schema : Schema) (predicate : Predicate) (item : Item) : Except Failure Bool :=
  match predicate.check schema with
  | .error e => .error e
  | .ok () => .ok (predicate.holds item)

end Predicate

end TableStore
