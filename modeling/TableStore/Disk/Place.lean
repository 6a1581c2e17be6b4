import TableStore.Disk.Route

/-!
# Places

A place is where a route has led. What can be done there depends on the path alone, but for one
thing: a file whose text is too long cannot be named. So a place keeps its route beside its path.
-/

namespace TableStore

/-- A path with the route that has led to it. -/
structure Place where
  path : Path
  route : Route
  deriving DecidableEq, Repr

namespace Place

/-- The length in bytes of the text that names a place. -/
def length (place : Place) : Nat :=
  place.route.length

/-- The place of a name in a directory. -/
def enter (directory : Place) (name : String) : Place :=
  ⟨directory.path ++ [name], directory.route.join name⟩

/-- The route that goes on from a directory, once it has been reached, to a name in it. -/
def onward (directory : Place) (name : String) : Route :=
  ⟨directory.path, (directory.route.join name).length - name.utf8ByteSize, [name]⟩

end Place

end TableStore
