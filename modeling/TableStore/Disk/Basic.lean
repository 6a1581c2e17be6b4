import Std.Data.ExtTreeMap
import TableStore.Disk.Node
import TableStore.Disk.Place

/-!
# Disks

A disk maps paths to nodes; the root is a directory and is not listed. Operations are about places.
Each looks at the place's own node first, then at the directories on the way to it; at a place
whose text is too long it finds nothing and can make nothing. What is said about every disk is about
disks without links, unless it speaks of them.
-/

-- Powers are those of the core library, whatever is imported beside it.
attribute [local instance (1100)] instPowNat

namespace TableStore

/-- The files and directories below the root. -/
structure Disk where
  nodes : Std.ExtTreeMap Path Node

namespace Disk

/-- A disk with nothing on it. -/
def empty : Disk := ⟨∅⟩

/-- The length in bytes that the text of a route cannot exceed. -/
def textLimit : Nat := 4095

/-- The length in bytes that a name cannot exceed. -/
def nameLimit : Nat := 255

/-- The length in bytes that a file cannot exceed: as many blocks of 4096 bytes as a word of 32 bits
can count. -/
def sizeLimit : Nat := (2 ^ (32 : Nat) - 1) * 4096

/-! ## Looking -/

/-- The node at a path. -/
def node? (disk : Disk) (path : Path) : Option Node :=
  if path.isEmpty then some .directory else disk.nodes[path]?

/-- The node at a place. -/
def get? (disk : Disk) (place : Place) : Option Node :=
  if textLimit < place.length then none else disk.node? place.path

/-- Whether there is anything at a place. -/
def has (disk : Disk) (place : Place) : Bool :=
  (disk.get? place).isSome

/-- Whether there is a directory at a place. -/
def isDirectory (disk : Disk) (place : Place) : Bool :=
  disk.get? place == some .directory

/-- Why there is nothing at a path: the first name on the way that leads nowhere tells. -/
def absence (disk : Disk) (seen : Path) : Path → FileFault
  | [] => .notFound
  | name :: rest =>
    match disk.node? (seen ++ [name]) with
    | some .directory => absence disk (seen ++ [name]) rest
    | some _ => .notADirectory
    | none => if nameLimit < name.utf8ByteSize then .nameTooLong else .notFound

/-- The node at a place, or why there is none. -/
def find (disk : Disk) (place : Place) : Except FileFault Node :=
  match disk.get? place with
  | some node => .ok node
  | none =>
    .error (if textLimit < place.length then .nameTooLong else disk.absence [] place.path)

/-- Why no entry can be made at a place where there is nothing, if so. -/
def entryFault? (disk : Disk) (place : Place) : Option FileFault :=
  if textLimit < place.length then some .nameTooLong
  else
    match disk.node? place.path.dropLast with
    | some .directory =>
      if nameLimit < (place.path.getLastD "").utf8ByteSize then some .nameTooLong else none
    | some _ => some .notADirectory
    | none => some (disk.absence [] place.path.dropLast)

/-- The bytes of the file at a place. -/
def read (disk : Disk) (place : Place) : Except FileFault Bytes :=
  match disk.find place with
  | .error fault => .error fault
  | .ok node => node.content?

/-- The names in a directory with what they stand for, in order. -/
def entries (disk : Disk) (directory : Path) : List (String × Node) :=
  disk.nodes.toList.filterMap fun (path, node) =>
    match path.getLast? with
    | some name => if path.dropLast = directory then some (name, node) else none
    | none => none

/-- The names in a directory, those of directories with a slash behind them, in order. -/
def list (disk : Disk) (place : Place) : Except FileFault (List String) :=
  match disk.find place with
  | .error fault => .error fault
  | .ok .directory =>
    let shown := (disk.entries place.path).map fun (name, node) =>
      if node = .directory then name ++ "/" else name
    .ok (shown.mergeSort fun a b => (Utf8.order a b).isLE)
  | .ok _ => .error .notADirectory

/-! ## Changing -/

/-- Puts a node at a path, whatever was there. -/
def set (disk : Disk) (path : Path) (node : Node) : Disk :=
  ⟨disk.nodes.insert path node⟩

/-- Removes the node at a path. -/
def erase (disk : Disk) (path : Path) : Disk :=
  ⟨disk.nodes.erase path⟩

/-- Makes a directory where there is nothing. -/
def createDirectory (disk : Disk) (place : Place) : Except FileFault Disk :=
  if disk.has place then .error .alreadyExists
  else
    match disk.entryFault? place with
    | some fault => .error fault
    | none => .ok (disk.set place.path .directory)

/-- Makes an empty file unless there is a file already. -/
def ensureFile (disk : Disk) (place : Place) : Except FileFault Disk :=
  match disk.get? place with
  | some .directory => .error .isADirectory
  | some _ => .ok disk
  | none =>
    match disk.entryFault? place with
    | some fault => .error fault
    | none => .ok (disk.set place.path (.file []))

/-- Changes the content of the file at a place. -/
def modifyFile (disk : Disk) (place : Place) (change : Bytes → Bytes) : Except FileFault Disk :=
  match disk.find place with
  | .error fault => .error fault
  | .ok (.file content) => .ok (disk.set place.path (.file (change content)))
  | .ok .directory => .error .isADirectory
  | .ok .fullDevice => .error .deviceFull

/-- Gives a file another length, cut at the end or filled up with zeros. -/
def resizeFile (disk : Disk) (place : Place) (length : Nat) : Except FileFault Disk :=
  if sizeLimit < length then .error .fileTooLarge
  else disk.modifyFile place (·.resize length)

/-- Writes bytes over those of a file from `offset` on. -/
def overwriteFile (disk : Disk) (place : Place) (offset : Nat) (patch : Bytes) :
    Except FileFault Disk :=
  if sizeLimit < offset + patch.length ∧ patch ≠ [] then .error .fileTooLarge
  else disk.modifyFile place (·.overwrite offset patch)

/-- Makes a file empty, or makes an empty file. -/
def createFile (disk : Disk) (place : Place) : Except FileFault Disk :=
  match disk.ensureFile place with
  | .error fault => .error fault
  | .ok disk => disk.modifyFile place fun _ => []

/-- Makes a file with the given content, or gives a file that content. -/
def writeFile (disk : Disk) (place : Place) (content : Bytes) : Except FileFault Disk :=
  match disk.ensureFile place with
  | .error fault => .error fault
  | .ok disk => disk.modifyFile place fun _ => content

/-- Puts a file in the place of another one, or where there is nothing. -/
def rename (disk : Disk) (source target : Place) : Except FileFault Disk :=
  match disk.find source with
  | .error fault => .error fault
  | .ok .directory => .error .isADirectory
  | .ok node =>
    match disk.get? target with
    | some .directory => .error .isADirectory
    | some _ => .ok ((disk.erase source.path).set target.path node)
    | none =>
      match disk.entryFault? target with
      | some fault => .error fault
      | none => .ok ((disk.erase source.path).set target.path node)

/-- Removes a file. -/
def removeFile (disk : Disk) (place : Place) : Except FileFault Disk :=
  match disk.find place with
  | .error fault => .error fault
  | .ok .directory => .error .isADirectory
  | .ok _ => .ok (disk.erase place.path)

end Disk

end TableStore
