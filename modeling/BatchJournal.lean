import BatchJournal.Batch.Entry
import BatchJournal.Batch.Id
import BatchJournal.Batch.Mutation
import BatchJournal.Bytes.Basic
import BatchJournal.Bytes.Crc32
import BatchJournal.Bytes.Hex
import BatchJournal.Bytes.Reader
import BatchJournal.Bytes.Utf8
import BatchJournal.Codec.Error
import BatchJournal.Codec.FixedWidth
import BatchJournal.Codec.Registry
import BatchJournal.Decimal.Binary64
import BatchJournal.Decimal.Notation
import BatchJournal.Decimal.Shortest
import BatchJournal.Journal.Basic
import BatchJournal.Journal.Control
import BatchJournal.Journal.Error
import BatchJournal.Journal.Flight
import BatchJournal.Journal.Once
import BatchJournal.Journal.Step
import BatchJournal.Json.Forms
import BatchJournal.Json.Value
import BatchJournal.Log.Record
import BatchJournal.Log.Recovery
import BatchJournal.MessagePack.Head
import BatchJournal.MessagePack.MutationSet
import BatchJournal.OrderedMap
import BatchJournal.Pool.Basic
import BatchJournal.Pool.Callers
import BatchJournal.Pool.Trial
import BatchJournal.Proofs.Codec.AnySpelling
import BatchJournal.Proofs.Codec.Canonical
import BatchJournal.Proofs.Codec.FixedWidth
import BatchJournal.Proofs.Codec.MessagePack
import BatchJournal.Proofs.Codec.Prefixes
import BatchJournal.Proofs.Codec.Reads
import BatchJournal.Proofs.Codec.Refusal
import BatchJournal.Proofs.Codec.RoundTrip
import BatchJournal.Proofs.Codec.Spelling
import BatchJournal.Proofs.Codec.Structures
import BatchJournal.Proofs.Decimal.Layout
import BatchJournal.Proofs.Decimal.Reading
import BatchJournal.Proofs.Decimal.Rounding
import BatchJournal.Proofs.Decimal.Shortest
import BatchJournal.Proofs.Journal.Conservation
import BatchJournal.Proofs.Journal.Handing
import BatchJournal.Proofs.Journal.PassMoves
import BatchJournal.Proofs.Journal.Scheduling
import BatchJournal.Proofs.Journal.SingleFlight
import BatchJournal.Proofs.Journal.Steps
import BatchJournal.Proofs.Journal.Storing
import BatchJournal.Proofs.Journal.WrittenOnce
import BatchJournal.Proofs.Json.Forms
import BatchJournal.Proofs.Json.Grammar
import BatchJournal.Proofs.Json.Parsing
import BatchJournal.Proofs.Json.Writing
import BatchJournal.Proofs.Log.Checksum
import BatchJournal.Proofs.Log.Counting
import BatchJournal.Proofs.Log.Framing
import BatchJournal.Proofs.Log.Indexing
import BatchJournal.Proofs.Log.Parsing
import BatchJournal.Proofs.Log.Sequences
import BatchJournal.Proofs.Pool.Closing
import BatchJournal.Proofs.Pool.Conservation
import BatchJournal.Proofs.Pool.Effort
import BatchJournal.Proofs.Pool.Jobs
import BatchJournal.Proofs.Pool.Ledger
import BatchJournal.Proofs.Pool.Moves
import BatchJournal.Proofs.Pool.Places
import BatchJournal.Proofs.Pool.Shutdown
import BatchJournal.Proofs.Pool.Staff
import BatchJournal.Proofs.Pool.Tally
import BatchJournal.Proofs.Pool.Turns
import BatchJournal.Proofs.Pool.Winding
import BatchJournal.Proofs.Rehearsal.Runs
import BatchJournal.Proofs.Replay.Accounting
import BatchJournal.Proofs.Replay.Cancellation
import BatchJournal.Proofs.Replay.Course
import BatchJournal.Proofs.Replay.Deletion
import BatchJournal.Proofs.Replay.Delivery
import BatchJournal.Proofs.Replay.Effort
import BatchJournal.Proofs.Replay.Fidelity
import BatchJournal.Proofs.Replay.Idempotence
import BatchJournal.Proofs.Replay.Neighbours
import BatchJournal.Proofs.Replay.Progress
import BatchJournal.Proofs.Replay.Replacement
import BatchJournal.Proofs.Replay.Truncation
import BatchJournal.Proofs.Replica.LastWrite
import BatchJournal.Proofs.Replica.Precedence
import BatchJournal.Proofs.Replica.Readers
import BatchJournal.Proofs.Replica.Reading
import BatchJournal.Proofs.Settings.RoundTrip
import BatchJournal.Proofs.Store.AnyContent
import BatchJournal.Proofs.Store.Bookkeeping
import BatchJournal.Proofs.Store.Compaction
import BatchJournal.Proofs.Store.CrashRecovery
import BatchJournal.Proofs.Store.Creation
import BatchJournal.Proofs.Store.Damage
import BatchJournal.Proofs.Store.Effects
import BatchJournal.Proofs.Store.FailedWrites
import BatchJournal.Proofs.Store.Failures
import BatchJournal.Proofs.Store.InStep
import BatchJournal.Proofs.Store.MapRefinement
import BatchJournal.Proofs.Store.Reopening
import BatchJournal.Proofs.Store.Scanning
import BatchJournal.Proofs.Text.Digits
import BatchJournal.Proofs.Text.Hex
import BatchJournal.Proofs.Text.Parsing
import BatchJournal.Proofs.Time.Saturation
import BatchJournal.Proofs.Toml.Documents
import BatchJournal.Proofs.Toml.Numbers
import BatchJournal.Proofs.Toml.Strings
import BatchJournal.Rehearsal.Basic
import BatchJournal.Rehearsal.Gate
import BatchJournal.Rehearsal.GatedReplica
import BatchJournal.Rehearsal.Installation
import BatchJournal.Rehearsal.Ticker
import BatchJournal.Replay.Cancellation
import BatchJournal.Replay.Error
import BatchJournal.Replay.Pass
import BatchJournal.Replay.Report
import BatchJournal.Replay.Throttle
import BatchJournal.Replay.WritePath
import BatchJournal.Replica.Cell
import BatchJournal.Replica.Partition
import BatchJournal.Replica.Table
import BatchJournal.Settings.Basic
import BatchJournal.Settings.File
import BatchJournal.Store.Basic
import BatchJournal.Store.Disk
import BatchJournal.Store.Error
import BatchJournal.Store.LogStore
import BatchJournal.Store.Options
import BatchJournal.Store.Scan
import BatchJournal.Text.Figures
import BatchJournal.Text.Parser
import BatchJournal.Time.Duration
import BatchJournal.Time.Timestamp
import BatchJournal.Toml.Quotes
import BatchJournal.Toml.Reader
import BatchJournal.Toml.Text
import BatchJournal.Toml.Value
