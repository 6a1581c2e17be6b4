import TableStore.Disk.Locate
import TableStore.Disk.Step
import TableStore.Schema.Descriptor

/-!
# Storing descriptors

A descriptor is written to a file beside its place and then renamed into it, so that its place is
empty or holds all of it at any time. At last the directory is flushed. If it cannot be opened, that
is a failure, and the descriptor is in its place all the same.
-/

namespace TableStore.Descriptor

/-- The steps that write the bytes of a descriptor to a draft. -/
def draftSteps (draft : Place) (bytes : Bytes) : List Disk.Step :=
  [.createFile draft, .append draft bytes]

/-- The steps that put the bytes of a descriptor in their place, and make that last. -/
def saveSteps (draft place : Place) (bytes : Bytes) : List Disk.Step :=
  draftSteps draft bytes ++ [.rename draft place, .flush place.route.holder]

/-- Writes the bytes of a descriptor to a draft, and then to the place where a route leads, if it
leads anywhere. -/
def store (disk : Disk) (draft : Place) (route : Route) (bytes : Bytes) :
    Except FileFault Unit × Disk :=
  match disk.locate route with
  | .ok place => disk.perform (saveSteps draft place bytes)
  | .error fault =>
    match disk.perform (draftSteps draft bytes) with
    | (.error fault, disk) => (.error fault, disk)
    | (.ok (), disk) => (.error fault, disk)

/-- Stores the descriptor of a schema where a route leads and nothing is yet. -/
def save (disk : Disk) (route : Route) (schema : Schema) : Except Failure Unit × Disk :=
  if disk.hasAt route then (.error (.tableExists schema.name), disk)
  else
    match encode schema with
    | .error e => (.error e, disk)
    | .ok bytes =>
      match disk.locate (route.withExtension "tmp") with
      | .error fault => (.error (.file fault), disk)
      | .ok draft =>
        match store disk draft route bytes with
        | (.error fault, disk) => (.error (.file fault), disk)
        | (.ok (), disk) => (.ok (), disk)

/-- Loads the schema of the table called `name`. -/
def load (disk : Disk) (route : Route) (name : String) : Except Failure Schema :=
  match disk.readAt route with
  | .error fault => .error (.file fault)
  | .ok bytes => decode name bytes

end TableStore.Descriptor
