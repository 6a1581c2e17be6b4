import TableStore.Bytes
import TableStore.Checksum
import TableStore.Command.Line
import TableStore.Command.Run
import TableStore.Config
import TableStore.Disk.Basic
import TableStore.Disk.Locate
import TableStore.Disk.Node
import TableStore.Disk.Path
import TableStore.Disk.Place
import TableStore.Disk.Route
import TableStore.Disk.Step
import TableStore.Engine
import TableStore.Failure
import TableStore.Filter.Check
import TableStore.Filter.Evaluate
import TableStore.Filter.Predicate
import TableStore.Index
import TableStore.Json.Basic
import TableStore.Json.Fields
import TableStore.Json.Predicate
import TableStore.Json.Quoted
import TableStore.Json.Schema
import TableStore.Json.Text
import TableStore.Json.Token
import TableStore.Json.Value
import TableStore.Log.AppendLog
import TableStore.Log.Reader
import TableStore.Log.Recovery
import TableStore.Log.Scanner
import TableStore.Number.Binary64
import TableStore.Number.Decimal
import TableStore.Number.Digits
import TableStore.Number.FloatStyle
import TableStore.Number.Literal
import TableStore.Record.Field
import TableStore.Record.Format
import TableStore.Record.Frame
import TableStore.Record.Presence
import TableStore.Schema.Basic
import TableStore.Schema.Descriptor
import TableStore.Schema.Store
import TableStore.Schema.Valid
import TableStore.Table.Basic
import TableStore.Table.Compact
import TableStore.Table.Lifecycle
import TableStore.Text.Utf8
import TableStore.Value
import TableStore.Main
import TableStore.Proofs.Log.Scan
import TableStore.Proofs.Record.Field
import TableStore.Proofs.Record.Presence
import TableStore.Proofs.Record.RoundTrip
import TableStore.Proofs.Table.Rows
import TableStore.Proofs.Disk.Basic
import TableStore.Proofs.Log.Recovery
import TableStore.Proofs.Schema.Descriptor
import TableStore.Proofs.Disk.Steps
import TableStore.Proofs.Disk.Sibling
import TableStore.Proofs.Schema.Store
import TableStore.Proofs.Table.Stores
import TableStore.Proofs.Table.Changes
import TableStore.Proofs.Table.Lifecycle
import TableStore.Proofs.Table.Session
import TableStore.Proofs.Table.IndexAgreement
import TableStore.Proofs.Table.Ledger
import TableStore.Proofs.Table.TornLog
import TableStore.Proofs.Log.Faults
import TableStore.Proofs.Log.Flushing
import TableStore.Proofs.Record.Canonical
import TableStore.Proofs.Table.StoppedCompaction
import TableStore.Proofs.Disk.Locate
import TableStore.Proofs.Table.Creation
import TableStore.Proofs.Engine.Shelves
import TableStore.Proofs.Engine.Separation
import TableStore.Proofs.Schema.Canonical
import TableStore.Proofs.Log.Sequence
import TableStore.Proofs.Disk.Within
import TableStore.Proofs.Table.Within
import TableStore.Proofs.Engine.FailedCreation
import TableStore.Proofs.Engine.Opening
import TableStore.Proofs.Table.StoppedCreation
import TableStore.Proofs.Engine.StoppedCreation
import TableStore.Proofs.Record.Key
import TableStore.Proofs.Table.Compaction
import TableStore.Proofs.Number.Digits
import TableStore.Proofs.Number.Nearest
import TableStore.Proofs.Number.Shortest
import TableStore.Proofs.Number.Literal
import TableStore.Proofs.Json.Quoted
import TableStore.Proofs.Json.Text
import TableStore.Proofs.Json.Value
import TableStore.Proofs.Json.Data
import TableStore.Proofs.Json.Predicate
import TableStore.Proofs.Engine.Reopening
import TableStore.Proofs.Command.Operands
import TableStore.Proofs.Command.WriteRead
import TableStore.Proofs.Log.Lookup
import TableStore.Proofs.Table.Damage
import TableStore.Proofs.Engine.Damage
import TableStore.Proofs.Table.CurrentRecords
import TableStore.Proofs.Table.KeyLookup
import TableStore.Proofs.Table.KeyDamage
import TableStore.Proofs.Table.Acceptance
import TableStore.Proofs.Log.Passage
import TableStore.Proofs.Log.Restoration
import TableStore.Proofs.Log.Snapshot
import TableStore.Proofs.Filter.Typing
import TableStore.Proofs.Filter.Checking
import TableStore.Proofs.Checksum
import TableStore.Proofs.FirstFailure
import TableStore.Proofs.Schema.Protection
import TableStore.Proofs.Unguarded.Basic
import TableStore.Proofs.Unguarded.Record
import TableStore.Proofs.Unguarded.Descriptor
