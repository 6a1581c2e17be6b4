import TableStore.Disk.Locate

/-!
# Changes in steps

What an operation does to the disk is a list of steps, each of which a crash finds done or not
done, except that of an append any beginning may be done. Steps are performed until one fails. The
flush of a file that is open is no step of its own. That of a directory is one because the directory
is opened for it, and need not be found.
-/

namespace TableStore.Disk

/-- One step of a change. -/
inductive Step where
  /-- Make a directory. -/
  | createDirectory (place : Place)
  /-- Make a file empty, or make an empty file. -/
  | createFile (place : Place)
  /-- Put bytes at the end of a file. -/
  | append (place : Place) (bytes : Bytes)
  /-- Put a file in the place of another one. -/
  | rename (source target : Place)
  /-- Open the directory to which a route leads, and flush it. -/
  | flush (route : Route)
  deriving DecidableEq, Repr

/-- Performs one step. -/
def Step.apply (disk : Disk) : Step → Except FileFault Disk
  | .createDirectory place => disk.createDirectory place
  | .createFile place => disk.createFile place
  | .append place bytes => disk.modifyFile place (· ++ bytes)
  | .rename source target => disk.rename source target
  | .flush route =>
    match disk.flushAt route with
    | .error fault => .error fault
    | .ok () => .ok disk

/-- Performs steps one after the other up to the first that fails. -/
def perform (disk : Disk) : List Step → Except FileFault Unit × Disk
  | [] => (.ok (), disk)
  | step :: rest =>
    match step.apply disk with
    | .error fault => (.error fault, disk)
    | .ok disk => perform disk rest

end TableStore.Disk
