import TableStore.Value

/-!
# Table schemas

A schema names a table, lists its columns in the order in which records hold them, and says which
column is the primary key. Nothing here requires a schema to be sensible; `Schema.Valid` does.
-/

namespace TableStore

/-- A named column of one type. -/
structure Column where
  name : String
  type : ColumnType
  deriving DecidableEq, Repr

/-- The definition of a table. -/
structure Schema where
  name : String
  columns : List Column
  primaryKey : String
  deriving DecidableEq, Repr

namespace Schema

/-- The first column with a given name. -/
def column? (schema : Schema) (name : String) : Option Column :=
  schema.columns.find? (·.name == name)

/-- The position of the first column with a given name. -/
def position? (schema : Schema) (name : String) : Option Nat :=
  schema.columns.findIdx? (·.name == name)

/-- The column that the schema names as primary key, if it has such a column. -/
def keyColumn? (schema : Schema) : Option Column :=
  schema.column? schema.primaryKey

theorem position?_lt {schema : Schema} {name : String} {position : Nat}
    (h : schema.position? name = some position) : position < schema.columns.length :=
  (List.findIdx?_eq_some_iff_findIdx_eq.1 h).1

end Schema

end TableStore
