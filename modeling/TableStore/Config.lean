import TableStore.Log.AppendLog

/-!
# Configuration

Where the tables are kept, whether that directory is made when it is missing, and when appended
records are flushed.
-/

namespace TableStore

/-- The configuration of an engine. -/
structure Config where
  /-- The directory that holds one directory per table. -/
  dataDirectory : String
  /-- Whether a missing data directory is made. -/
  createIfMissing : Bool
  syncPolicy : SyncPolicy
  deriving DecidableEq, Repr

/-- The configuration unless told otherwise. -/
def Config.default : Config :=
  ⟨"./rowlog_data", true, .every 100⟩

end TableStore
