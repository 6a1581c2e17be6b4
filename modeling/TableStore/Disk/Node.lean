import TableStore.Failure

/-!
# What stands on a disk

A node is a regular file with its content, a directory, or the device that is always full: of
length zero, refusing every write of at least one byte, every flush and every change of length.
Links are left out, symbolic and hard ones: no path stands for another one, and no file is under two
paths. So are permissions: whatever is there can be read, changed and removed.
-/

namespace TableStore

namespace Bytes

/-- A byte string cut or filled up with zeros to a given length. -/
def resize (bytes : Bytes) (length : Nat) : Bytes :=
  bytes.take length ++ List.replicate (length - bytes.length) 0

/-- A byte string with another one written over it from `offset` on, filled up with zeros if it
ends before. Writing nothing changes nothing. -/
def overwrite (bytes : Bytes) (offset : Nat) (patch : Bytes) : Bytes :=
  if patch.isEmpty then bytes
  else resize bytes offset ++ patch ++ bytes.drop (offset + patch.length)

end Bytes

/-- What a path can lead to. -/
inductive Node where
  | file (content : Bytes)
  | directory
  | fullDevice
  deriving DecidableEq, Repr

namespace Node

/-- The bytes that can be read, or why none can. -/
def content? : Node → Except FileFault Bytes
  | .file content => .ok content
  | .directory => .error .isADirectory
  | .fullDevice => .ok []

end Node

end TableStore
