import TableStore.Disk.Path

/-!
# Routes

A route is a way to a file as it is written down: where it starts, and the parts between its
slashes. Two dots go back, and an empty part or a single dot stays where it is. Nothing is taken
out of a route, because which file it leads to, and whether it leads anywhere, depends on the disk:
every part but the last has to lead to a directory.
-/

-- Sums start at the zero of the core library, whatever is imported beside it.
attribute [local instance (1100)] Zero.ofOfNat0

namespace TableStore

/-- A way to a file, from a directory on. -/
structure Route where
  start : Path
  /-- The number of bytes that are written in front of the parts. -/
  lead : Nat
  parts : List String
  deriving DecidableEq, Repr

namespace Route

/-! ## Reading -/

/-- The pieces of a text between slashes. -/
def splitAtSlashes : List Char → List (List Char)
  | [] => [[]]
  | c :: rest =>
    if c = '/' then [] :: splitAtSlashes rest
    else
      match splitAtSlashes rest with
      | piece :: others => (c :: piece) :: others
      | [] => [[c]]

/-- The route that a text spells, which starts at the root if the text starts with a slash, and at
the current directory otherwise. -/
def ofText (current : Path) (text : String) : Route :=
  ⟨if text.toList.head? = some '/' then [] else current, 0,
    (splitAtSlashes text.toList).map String.ofList⟩

/-- The length of a route in bytes, slashes included. -/
def length (route : Route) : Nat :=
  route.lead + (route.parts.map String.utf8ByteSize).sum + (route.parts.length - 1)

/-- The route with one more name. A slash at the end is not written twice. -/
def join (route : Route) (name : String) : Route :=
  let parts := if route.parts.getLast? = some "" then route.parts.dropLast else route.parts
  { route with parts := parts ++ [name] }

/-! ## The parts at the end -/

/-- Whether a part stays where it is. -/
def isStill (part : String) : Bool :=
  part = "" || part = "."

/-- The parts without those at the end that stay where they are. -/
def trimStill (parts : List String) : List String :=
  (parts.reverse.dropWhile isStill).reverse

/-- The parts without empty ones at the end, that is, without slashes at the end of the text. -/
def trimSlashes (parts : List String) : List String :=
  (parts.reverse.dropWhile (· = "")).reverse

/-- The route to the directory in which the last name is. -/
def parent (route : Route) : Route :=
  { route with parts := trimStill (trimStill route.parts).dropLast }

/-- The route to that directory as it is left when the name is cut off. Where the name is all that
is written, the route is empty, and leads nowhere. -/
def holder (route : Route) : Route :=
  if route.lead = 0 ∧ (trimStill route.parts).dropLast = [] then { route with parts := [""] }
  else route.parent

/-- Whether a route ends in a dot, slashes behind it not counted. -/
def endsInDot (route : Route) : Bool :=
  (trimSlashes route.parts).getLast? = some "."

/-! ## Extensions -/

/-- The part of a file name before its last dot. A dot in front does not count. -/
def stem (name : String) : String :=
  let before := ((name.toList.reverse.dropWhile (· ≠ '.')).drop 1).reverse
  if before.isEmpty then name else String.ofList before

/-- The route to the file beside it with another extension. Without a name at the end, nothing
changes. A name of two dots and an extension has no stem that could stand alone: at the very end
of a route it is cut to the two dots. -/
def withExtension (route : Route) (extension : String) : Route :=
  let named := trimStill route.parts
  match named.getLast? with
  | none | some ".." => route
  | some name =>
    let sibling :=
      if stem name = "." ∧ named = route.parts then ".." else stem name ++ "." ++ extension
    { route with parts := named.dropLast ++ [sibling] }

end Route

end TableStore
