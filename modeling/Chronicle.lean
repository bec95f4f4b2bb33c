import Chronicle.Artifact.Store
import Chronicle.Bytes
import Chronicle.Command.Arguments
import Chronicle.Command.Run
import Chronicle.Commit.Journal
import Chronicle.Commit.Pending
import Chronicle.Config.Document
import Chronicle.Config.Settings
import Chronicle.Digest.Label
import Chronicle.Digest.Sha256
import Chronicle.Disk.Entry
import Chronicle.Disk.Errno
import Chronicle.Disk.Operations
import Chronicle.Disk.Outside
import Chronicle.Disk.Resolve
import Chronicle.Ident
import Chronicle.Ingest
import Chronicle.Json.Printer
import Chronicle.Json.Reader
import Chronicle.Json.Value
import Chronicle.Log.Line
import Chronicle.Main
import Chronicle.Manifest.Build
import Chronicle.Manifest.Chunk
import Chronicle.Manifest.Document
import Chronicle.Manifest.Reassemble
import Chronicle.Manifest.Verify
import Chronicle.Merkle
import Chronicle.Path
import Chronicle.Pattern.ByteSet
import Chronicle.Pattern.Node
import Chronicle.Pattern.Reader
import Chronicle.Pattern.Search
import Chronicle.Pattern.Token
import Chronicle.Problem
import Chronicle.Proofs.Assembly.Course
import Chronicle.Proofs.Assembly.Local
import Chronicle.Proofs.Assembly.OneSpan
import Chronicle.Proofs.Assembly.Parts
import Chronicle.Proofs.Bytes.Split
import Chronicle.Proofs.Commit.Applied
import Chronicle.Proofs.Commit.Interrupted
import Chronicle.Proofs.Commit.Places
import Chronicle.Proofs.Commit.Replay
import Chronicle.Proofs.Commit.Spools
import Chronicle.Proofs.Commit.Steps
import Chronicle.Proofs.Commit.WriteAhead
import Chronicle.Proofs.Digest.Collision
import Chronicle.Proofs.Disk.Changes
import Chronicle.Proofs.Disk.Contents
import Chronicle.Proofs.Disk.Way
import Chronicle.Proofs.Manifest.Cutting
import Chronicle.Proofs.Manifest.Joined
import Chronicle.Proofs.Manifest.Lossless
import Chronicle.Proofs.Manifest.Verified
import Chronicle.Proofs.Merkle.Binding
import Chronicle.Proofs.Merkle.Levels
import Chronicle.Proofs.Spool.Files
import Chronicle.Proofs.Storage.Writing
import Chronicle.Proofs.System.Ends
import Chronicle.Proofs.System.Stops
import Chronicle.Proofs.Tail.ExactlyOnce
import Chronicle.Proofs.Tail.Lines
import Chronicle.Proofs.Trace.Attached
import Chronicle.Proofs.Trace.Calls
import Chronicle.Proofs.Trace.Chain
import Chronicle.Proofs.Trace.Changes
import Chronicle.Proofs.Trace.Finalized
import Chronicle.Proofs.Trace.Frozen
import Chronicle.Proofs.Trace.MerkleBinding
import Chronicle.Proofs.Trace.RootBinding
import Chronicle.Proofs.Trace.WellFormed
import Chronicle.Recorder.Cycle
import Chronicle.Recorder.Polling
import Chronicle.Redaction
import Chronicle.Sorted
import Chronicle.Spool.BundleId
import Chronicle.Spool.Event
import Chronicle.Spool.Store
import Chronicle.Storage.File
import Chronicle.System.Host
import Chronicle.System.Program
import Chronicle.System.Request
import Chronicle.Table
import Chronicle.Tail.Checkpoint
import Chronicle.Tail.Discovery
import Chronicle.Tail.NewLines
import Chronicle.Text.Utf8
import Chronicle.Time.Calendar
import Chronicle.Trace.Assembly
import Chronicle.Trace.Document
import Chronicle.Trace.Fault
import Chronicle.Trace.Hash
import Chronicle.Trace.Local
import Chronicle.Trace.Recording
import Chronicle.Trace.Types
import Chronicle.Trace.View
import Chronicle.Proofs.Assembly.Checked
import Chronicle.Proofs.Disk.Names
import Chronicle.Proofs.System.Troubled
import Chronicle.Proofs.Tail.Shortened
import Chronicle.Proofs.Storage.Put
import Chronicle.Proofs.Storage.AllOrNothing
import Chronicle.Proofs.Artifact.Files
import Chronicle.Proofs.Disk.Made
import Chronicle.Proofs.Artifact.Published
import Chronicle.Proofs.Disk.Tree
import Chronicle.Proofs.Disk.Walk
import Chronicle.Proofs.System.Undisturbed
import Chronicle.Proofs.Tail.Discovery
import Chronicle.Proofs.Recorder.Visits
import Chronicle.Proofs.Recorder.OncePerCycle
import Chronicle.Proofs.Trace.Refused
import Chronicle.Proofs.System.Crashes
import Chronicle.Proofs.Storage.Unreadable
import Chronicle.Proofs.Disk.Joined
import Chronicle.Proofs.Json.OneLine
import Chronicle.Proofs.Json.Reread
import Chronicle.Proofs.Json.Whole
import Chronicle.Proofs.Spool.Shelf
import Chronicle.Proofs.Storage.Granted
import Chronicle.Proofs.Commit.Granted
import Chronicle.Proofs.Tail.Changed
import Chronicle.Proofs.Recorder.Sifted
import Chronicle.Proofs.Recorder.Isolated
import Chronicle.Proofs.Manifest.Supply
import Chronicle.Proofs.Manifest.Consistent
import Chronicle.Proofs.Manifest.Unordered
import Chronicle.Proofs.Trace.Orderly
import Chronicle.Proofs.Trace.View
import Chronicle.Proofs.Storage.AnyPath
import Chronicle.Proofs.Pattern.Found
import Chronicle.Proofs.Redaction.Secrets
import Chronicle.Proofs.Disk.Seen
import Chronicle.Proofs.Spool.Identifiers
import Chronicle.Proofs.Spool.Nameable
import Chronicle.Proofs.Command.Verified
import Chronicle.Proofs.Config.Normal
import Chronicle.Proofs.Config.Validated
import Chronicle.Proofs.Disk.Reordered
import Chronicle.Proofs.Tail.Ordered
import Chronicle.Proofs.Tail.Reloaded
import Chronicle.Proofs.Command.Grammar
import Chronicle.Proofs.Artifact.Listed
import Chronicle.Proofs.Merkle.Split
import Chronicle.Proofs.Bytes.Decimal
import Chronicle.Proofs.Time.Gregorian
import Chronicle.Proofs.Time.Timestamps
import Chronicle.Proofs.Trace.MerkleSplit
import Chronicle.Proofs.Digest.Comparison
