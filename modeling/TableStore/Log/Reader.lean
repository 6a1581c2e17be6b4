import TableStore.Disk.Basic
import TableStore.Log.Scanner

/-!
# Open readers

A reader is a scanner with the file it was opened on. It reads the file in blocks, so that it may
already hold bytes that are changed in the file later. When the file loses its name the reader goes
on with what the file held then.
-/

namespace TableStore

/-- A scanner with its file. -/
structure Reader where
  place : Place
  scanner : Scanner
  /-- The bytes from the scanner's position on that have been read from the file already. -/
  ahead : Bytes
  /-- The file itself, once it has lost its name. -/
  unnamed : Option Node

namespace Reader

/-- The number of bytes that are read from the file at a time. -/
def blockLength : Nat := 8192

/-- A reader that has not read anything yet. -/
def start (place : Place) (scanner : Scanner) : Reader :=
  ⟨place, scanner, [], none⟩

/-- The file as it is now. -/
def node (reader : Reader) (disk : Disk) : Node :=
  reader.unnamed.getD ((disk.get? reader.place).getD (.file []))

/-- The bytes read ahead after `count` more bytes from `position` on have been taken. Less than a
block is read from the file as a block, and more as it is. -/
def aheadAfter (content : Bytes) (position : Nat) (ahead : Bytes) (count : Nat) : Bytes :=
  if count ≤ ahead.length then ahead.drop count
  else
    let missing := count - ahead.length
    if missing < blockLength then
      ((content.drop (position + ahead.length)).take blockLength).drop missing
    else []

/-- The bytes read ahead after a record at `position` has been taken, its lead first and then its
body. -/
def aheadAfterRecord (content : Bytes) (position : Nat) (ahead record : Bytes) : Bytes :=
  aheadAfter content (position + Frame.width) (aheadAfter content position ahead Frame.width)
    (record.length - Frame.width)

/-- Reads the next record with its offset, if there is one. -/
def next (reader : Reader) (disk : Disk) :
    Option (Except FileFault (Nat × Bytes)) × Reader :=
  let { scanner, ahead, .. } := reader
  let content := (reader.node disk).content?
  let bytes := content.map fun content =>
    ahead ++ content.drop (scanner.position + ahead.length)
  match scanner.next bytes, content with
  | (some (.ok (offset, record)), scanner), .ok content =>
    (some (.ok (offset, record)),
      { reader with scanner, ahead := aheadAfterRecord content offset ahead record })
  | (entry, scanner), _ => (entry, { reader with scanner })

/-- Keeps the file, which is about to lose its name. -/
def keep (reader : Reader) (disk : Disk) : Reader :=
  { reader with unnamed := some (reader.node disk) }

end Reader

end TableStore
