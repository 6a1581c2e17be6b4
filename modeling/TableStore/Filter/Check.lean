import TableStore.Failure
import TableStore.Schema.Basic

/-!
# Checking predicates against a schema

A comparison must name a column and have a literal of the column's type, integers and floating
point numbers being interchangeable, and truth values have no order. A predicate is checked from
left to right, and every comparison in it counts, whether evaluation would reach it or not.
-/

namespace TableStore

/-- Checks one comparison: the column first, then the type of the literal, then the operator. -/
def Comparison.check (schema : Schema) (comparison : Comparison) : Except Failure Unit :=
  match schema.column? comparison.column with
  | none => .error (.unknownColumn comparison.column)
  | some column =>
    let literal := comparison.value.type
    if !(column.type == literal || (column.type.isNumeric && literal.isNumeric)) then
      .error (.typeMismatch comparison.column column.type literal)
    else if column.type == .boolean && comparison.op.isOrdering then
      .error (.unsupportedOperator comparison.column comparison.op .boolean)
    else .ok ()

namespace Predicate

mutual

/-- Checks every comparison of a predicate, and reports the first fault. -/
def check (schema : Schema) : Predicate → Except Failure Unit
  | .compare comparison => comparison.check schema
  | .all conditions => checkAll schema conditions
  | .any conditions => checkAll schema conditions
  | .not condition => check schema condition

/-- Checks predicates one after the other. -/
def checkAll (schema : Schema) : List Predicate → Except Failure Unit
  | [] => .ok ()
  | condition :: rest =>
    match check schema condition with
    | .error e => .error e
    | .ok () => checkAll schema rest

end

end Predicate

end TableStore
