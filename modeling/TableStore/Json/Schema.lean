import TableStore.Json.Fields
import TableStore.Schema.Basic

/-!
# Schemas in JSON

A schema has the fields `name`, `columns` and `primary_key`, a column the fields `name` and `type`.
Nothing is checked beyond these shapes.
-/

namespace TableStore

namespace Column

/-- A column in JSON. -/
def toJson (column : Column) : Json :=
  Json.ofFields [("name", Json.ofText column.name), ("type", Json.ofText column.type.name)]

/-- The column that a tree spells. -/
def ofJson? (tree : Json) : Option Column :=
  match tree.fields? ["name", "type"] with
  | some [name, type] =>
    match name.text?, type.choice?.bind ColumnType.ofName? with
    | some name, some type => some ⟨name, type⟩
    | _, _ => none
  | _ => none

end Column

namespace Schema

/-- A schema in JSON. -/
def toJson (schema : Schema) : Json :=
  Json.ofFields [("name", Json.ofText schema.name),
    ("columns", .array (schema.columns.map Column.toJson)),
    ("primary_key", Json.ofText schema.primaryKey)]

/-- The schema that a tree spells. -/
def ofJson? (tree : Json) : Option Schema :=
  match tree.fields? ["name", "columns", "primary_key"] with
  | some [name, columns, key] =>
    match name.text?, columns.items?.bind (List.mapM Column.ofJson?), key.text? with
    | some name, some columns, some key => some ⟨name, columns, key⟩
    | _, _, _ => none
  | _ => none

end Schema

end TableStore
