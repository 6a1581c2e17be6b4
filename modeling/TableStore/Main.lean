import TableStore.Command.Run

/-!
# The program

What stands on the way to the data directory and below it is read into a disk, the command is run
on it, and what has changed is written back: new directories first, then files, longer ones by
appending, and removals last.
-/

namespace TableStore.Program

/-- The entry of the file system at a path. -/
def entryAt (path : Path) : IO.FS.DirEntry :=
  ⟨⟨Path.text path.dropLast⟩, path.getLastD ""⟩

/-- Takes a file onto a disk, or a directory without what is in it. -/
def take (disk : Disk) (path : Path) : IO Disk := do
  let entry := entryAt path
  if ← entry.path.isDir then return disk.set path .directory
  else if ← entry.path.pathExists then
    return disk.set path (.file (← IO.FS.readBinFile entry.path).data.toList)
  else return disk

/-- Takes onto a disk what is below a directory. -/
partial def takeBelow (disk : Disk) (path : Path) : IO Disk := do
  let mut disk := disk
  for child in ← (entryAt path).path.readDir do
    let below := path ++ [child.fileName]
    disk ← take disk below
    if disk.node? below == some .directory then disk ← takeBelow disk below
  return disk

/-- Takes onto a disk what stands on a way from a directory, and what is below its end. -/
def takeAlong (disk : Disk) (here : Path) : List String → IO Disk
  | [] => if disk.node? here == some .directory then takeBelow disk here else return disk
  | part :: rest => do
    if Route.isStill part then takeAlong disk here rest
    else if part = ".." then takeAlong disk here.dropLast rest
    else takeAlong (← take disk (here ++ [part])) (here ++ [part]) rest

/-- The content of a file on a disk, empty if there is no file. -/
def contentAt (disk : Disk) (path : Path) : Bytes :=
  match disk.node? path with
  | some (.file content) => content
  | _ => []

/-- Gives a file the content it has on the disk, `old` being its content so far. -/
def writeBack (entry : IO.FS.DirEntry) (old new : Bytes) : IO Unit := do
  if old.isPrefixOf new then
    let handle ← IO.FS.Handle.mk entry.path .append
    handle.write ⟨(new.drop old.length).toArray⟩
    handle.flush
  else IO.FS.writeBinFile entry.path ⟨new.toArray⟩

/-- Writes back what has changed. -/
def save (before after : Disk) : IO Unit := do
  for (path, node) in after.nodes.toList do
    if before.node? path != some node then
      let entry := entryAt path
      match node with
      | .directory => IO.FS.createDirAll entry.path
      | _ => writeBack entry (contentAt before path) (contentAt after path)
  for (path, node) in before.nodes.toList.reverse do
    if (after.node? path).isNone then
      let entry := entryAt path
      match node with
      | .directory => IO.FS.removeDir entry.path
      | _ => IO.FS.removeFile entry.path

/-- The current directory. -/
def currentDirectory : IO Path :=
  return (Route.ofText [] (← IO.currentDir).toString).parts.filter (!Route.isStill ·)

/-- Runs a command on the data directory. -/
def run (options : Options) (arguments : List String) : IO Exit := do
  let current ← currentDirectory
  let route := Route.ofText current (Command.config options).dataDirectory
  let before ← takeAlong Disk.empty [] (route.start ++ route.parts)
  let (exit, after) := Request.execute before current arguments
  save before after
  return exit

end TableStore.Program

open TableStore in
/-- Runs the program. -/
def main (arguments : List String) : IO UInt32 := do
  let exit ←
    match Request.ofArguments Options.none arguments with
    | .run options _ =>
      try Program.run options arguments
      catch e => pure ⟨1, "", s!"Error: IO error: {e}\n"⟩
    | .version => pure ⟨0, versionLine, ""⟩
    | .misuse => pure ⟨2, "", "Usage: rowlog [OPTIONS] <COMMAND>\n"⟩
  IO.print exit.output
  IO.eprint exit.errors
  return exit.code.toUInt32
