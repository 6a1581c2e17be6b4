import TableStore.Value

/-!
# Predicates on items

A predicate is a tree of conjunctions, disjunctions and negations over comparisons of a column
with a literal. The empty conjunction holds of every item and the empty disjunction of none.
-/

namespace TableStore

/-- How a column is compared with a literal. -/
inductive Operator where
  | eq
  | ne
  | gt
  | gte
  | lt
  | lte
  deriving DecidableEq, Repr

namespace Operator

/-- The sign of an operator in messages and predicates. -/
def symbol : Operator → String
  | .eq => "$eq"
  | .ne => "$ne"
  | .gt => "$gt"
  | .gte => "$gte"
  | .lt => "$lt"
  | .lte => "$lte"

/-- The operator with a given sign; `$neq` is another sign of `$ne`. -/
def ofSymbol? : String → Option Operator
  | "$eq" => some .eq
  | "$ne" => some .ne
  | "$neq" => some .ne
  | "$gt" => some .gt
  | "$gte" => some .gte
  | "$lt" => some .lt
  | "$lte" => some .lte
  | _ => none

/-- Whether the operator asks for an order and not only for equality. -/
def isOrdering : Operator → Bool
  | .eq | .ne => false
  | .gt | .gte | .lt | .lte => true

end Operator

/-- A comparison of a column with a literal. -/
structure Comparison where
  column : String
  op : Operator
  value : Value
  deriving DecidableEq, Repr

/-- A condition on items. -/
inductive Predicate where
  /-- All of the conditions hold. -/
  | all (conditions : List Predicate)
  /-- At least one of the conditions holds. -/
  | any (conditions : List Predicate)
  /-- The condition does not hold. -/
  | not (condition : Predicate)
  /-- The comparison holds. -/
  | compare (comparison : Comparison)
  deriving Repr

end TableStore
