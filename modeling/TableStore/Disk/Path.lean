/-!
# Paths

A path says where a file or directory is: the list of names on the way to it from the root. Names
are text. What has a name that is not, which can be the name of no table, is under no path.
-/

namespace TableStore

/-- The names from the root to a file or directory. -/
abbrev Path := List String

/-- A path as text. -/
def Path.text (path : Path) : String :=
  "/" ++ String.intercalate "/" path

end TableStore
