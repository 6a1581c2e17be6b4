import TableStore.Disk.Basic
import TableStore.Disk.Route

/-!
# Following routes

A route is followed on a disk part by part, and every step needs a directory to go on from. So a
route that goes back out of a missing directory, or out of a file, leads nowhere, and one that ends
in a slash or a dot cannot lead to a file. Where it ends there need not be anything yet.
-/

namespace TableStore.Disk

/-! ## Looking -/

/-- Where parts of a route lead from a directory. -/
def follow (disk : Disk) (here : Path) : List String → Except FileFault Path
  | [] => .ok here
  | part :: rest =>
    if Route.isStill part then follow disk here rest
    else if part = ".." then follow disk here.dropLast rest
    else if rest.isEmpty then .ok (here ++ [part])
    else
      match disk.node? (here ++ [part]) with
      | some .directory => follow disk (here ++ [part]) rest
      | some _ => .error .notADirectory
      | none => .error (if nameLimit < part.utf8ByteSize then .nameTooLong else .notFound)

/-- What is wrong with a route whatever is on the disk, if so. -/
def routeFault? (route : Route) : Option FileFault :=
  if route.parts.any (·.toList.contains '\x00') then some .invalidArgument
  else if textLimit < route.length then some .nameTooLong
  else if route.parts = [""] then some .notFound
  else none

/-- The place to which a route leads. -/
def locate (disk : Disk) (route : Route) : Except FileFault Place :=
  match routeFault? route with
  | some fault => .error fault
  | none =>
    match disk.follow route.start route.parts with
    | .error fault => .error fault
    | .ok path => .ok ⟨path, route⟩

/-- Whether a route leads to anything. -/
def hasAt (disk : Disk) (route : Route) : Bool :=
  match disk.locate route with
  | .ok place => disk.has place
  | .error _ => false

/-- Whether a route leads to a directory. -/
def isDirectoryAt (disk : Disk) (route : Route) : Bool :=
  match disk.locate route with
  | .ok place => disk.isDirectory place
  | .error _ => false

/-- The bytes of the file to which a route leads. -/
def readAt (disk : Disk) (route : Route) : Except FileFault Bytes :=
  match disk.locate route with
  | .error fault => .error fault
  | .ok place => disk.read place

/-- Opens what a route leads to, and flushes it. Nothing on the disk changes. -/
def flushAt (disk : Disk) (route : Route) : Except FileFault Unit :=
  match disk.locate route with
  | .error fault => .error fault
  | .ok place =>
    match disk.find place with
    | .error fault => .error fault
    | .ok .fullDevice => .error .notSupported
    | .ok _ => .ok ()

/-! ## Making directories -/

/-- Makes the directories that are missing on the way along parts of a route, and returns where the
parts lead. Those made before the first fault stay. -/
def createAlong (disk : Disk) (here : Path) : List String → Except FileFault Path × Disk
  | [] => (.ok here, disk)
  | part :: rest =>
    if Route.isStill part then createAlong disk here rest
    else if part = ".." then createAlong disk here.dropLast rest
    else
      match disk.node? (here ++ [part]) with
      | some .directory => createAlong disk (here ++ [part]) rest
      | some _ => (.error .notADirectory, disk)
      | none =>
        if nameLimit < part.utf8ByteSize then (.error .nameTooLong, disk)
        else createAlong (disk.set (here ++ [part]) .directory) (here ++ [part]) rest

/-- Makes a directory where a route ends and those that are missing on the way to it, unless they
are there already. The name in front of a dot at the end is not made. -/
def createDirectories (disk : Disk) (route : Route) : Except FileFault Unit × Disk :=
  match routeFault? route with
  | some fault => (.error fault, disk)
  | none =>
    if disk.node? route.start != some .directory then (.error .notFound, disk)
    else
      let way := if route.endsInDot then route.parent else route
      match disk.createAlong way.start way.parts with
      | (.error fault, disk) => (.error fault, disk)
      | (.ok _, disk) => (if disk.isDirectoryAt route then .ok () else .error .notFound, disk)

/-! ## Removing -/

/-- Removes all that is below a directory. -/
def eraseBelow (disk : Disk) (path : Path) : Disk :=
  ⟨disk.nodes.filter fun other _ => !(path.isPrefixOf other && other != path)⟩

/-- Removes the directory to which a route leads, and before that all that is below it. The
directory itself stays, without that being a failure, if the route to it went through what was
below; it cannot be removed by a route that ends in a dot. -/
def removeTreeAt (disk : Disk) (route : Route) : Except FileFault Unit × Disk :=
  match disk.locate route with
  | .error fault => (.error fault, disk)
  | .ok place =>
    match disk.find place with
    | .error fault => (.error fault, disk)
    | .ok .directory =>
      let emptied := disk.eraseBelow place.path
      match emptied.locate route with
      | .error .notFound => (.ok (), emptied)
      | .error fault => (.error fault, emptied)
      | .ok place =>
        if route.endsInDot then (.error .invalidArgument, emptied)
        else (.ok (), emptied.erase place.path)
    | .ok _ => (.error .notADirectory, disk)

/-- Removes the file to which a route leads, or the directory with all below it. -/
def removeAt (disk : Disk) (route : Route) : Except FileFault Unit × Disk :=
  if disk.isDirectoryAt route then disk.removeTreeAt route
  else
    match disk.locate route with
    | .error fault => (.error fault, disk)
    | .ok place =>
      match disk.removeFile place with
      | .error fault => (.error fault, disk)
      | .ok disk => (.ok (), disk)

end TableStore.Disk
