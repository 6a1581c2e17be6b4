import TableStore.Json.Basic

/-!
# Structures and names in JSON trees

A structure with named fields is written as an object, and may also be given as an array of its
fields in order. A choice between names is written as a string, and may also be given as an object
with that name and the value `null`.
-/

namespace TableStore.Json

/-- The one value among members that has a given name; none if there is no such member or more
than one. -/
def uniqueField? (members : List (JsonText × Json)) (name : String) : Option Json :=
  match members.filter (·.1 == some name) with
  | [(_, value)] => some value
  | _ => none

/-- The fields of a structure in the order of their names. An object may have other members, as
long as their names are texts. -/
def fields? (names : List String) : Json → Option (List Json)
  | .array items => if items.length = names.length then some items else none
  | .object members =>
    if members.all (·.1.isSome) then names.mapM (uniqueField? members) else none
  | _ => none

/-- The name that is chosen. -/
def choice? : Json → Option String
  | .string text => text
  | .object [(name, .null)] => name
  | _ => none

/-- The text that a tree consists of. -/
def text? : Json → Option String
  | .string text => text
  | _ => none

/-- The items of an array. -/
def items? : Json → Option (List Json)
  | .array items => some items
  | _ => none

/-- A text as a tree. -/
def ofText (text : String) : Json :=
  .string (some text)

/-- An object with given names and values. -/
def ofFields (members : List (String × Json)) : Json :=
  .object (members.map fun (name, value) => (some name, value))

end TableStore.Json
