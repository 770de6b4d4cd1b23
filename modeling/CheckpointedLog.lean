import CheckpointedLog.Assignment
import CheckpointedLog.Backoff
import CheckpointedLog.Broker.Client
import CheckpointedLog.Broker.Memory
import CheckpointedLog.Broker.Metadata
import CheckpointedLog.Broker.Scripted
import CheckpointedLog.Broker.Shared
import CheckpointedLog.Checkpoint.CommitMode
import CheckpointedLog.Checkpoint.Pending
import CheckpointedLog.Checkpoint.PendingHistory
import CheckpointedLog.Command.Invocation
import CheckpointedLog.Command.Parameter
import CheckpointedLog.Command.Report
import CheckpointedLog.Config.File
import CheckpointedLog.Config.Reading
import CheckpointedLog.Config.Source
import CheckpointedLog.Config.Topics
import CheckpointedLog.Connector.CheckpointTrace
import CheckpointedLog.Connector.Connector
import CheckpointedLog.Connector.ConnectorRun
import CheckpointedLog.Connector.DiscoveryTrace
import CheckpointedLog.Connector.Lifecycle
import CheckpointedLog.Connector.Phase
import CheckpointedLog.Connector.Session
import CheckpointedLog.Discovery.Answers
import CheckpointedLog.Discovery.Discoverer
import CheckpointedLog.Discovery.Recorded
import CheckpointedLog.Discovery.Scripted
import CheckpointedLog.Document
import CheckpointedLog.Fetch.FetchHistory
import CheckpointedLog.Fetch.FetchLife
import CheckpointedLog.Fetch.FetchLoop
import CheckpointedLog.Fetch.FetchRun
import CheckpointedLog.Fetch.Fetcher
import CheckpointedLog.Files.FileProgram
import CheckpointedLog.Files.FileSystem
import CheckpointedLog.Files.Path
import CheckpointedLog.Json.Decode
import CheckpointedLog.Json.Document
import CheckpointedLog.Json.Value
import CheckpointedLog.Libraries
import CheckpointedLog.Main
import CheckpointedLog.Offset
import CheckpointedLog.OffsetState
import CheckpointedLog.Partition
import CheckpointedLog.Pattern.CharClass
import CheckpointedLog.Pattern.NamedClass
import CheckpointedLog.Pattern.Reader
import CheckpointedLog.Pattern.Regex
import CheckpointedLog.Pattern.Written
import CheckpointedLog.Proofs.Assignment
import CheckpointedLog.Proofs.Assignment.Balance
import CheckpointedLog.Proofs.Assignment.Cover
import CheckpointedLog.Proofs.Backoff
import CheckpointedLog.Proofs.Broker.Memory
import CheckpointedLog.Proofs.Checkpoint.Pending
import CheckpointedLog.Proofs.Checkpoint.PendingHistory
import CheckpointedLog.Proofs.Command.Confinement
import CheckpointedLog.Proofs.Command.Inspection
import CheckpointedLog.Proofs.Command.Migration
import CheckpointedLog.Proofs.Config.Source
import CheckpointedLog.Proofs.Connector.Attempts
import CheckpointedLog.Proofs.Connector.Bookkeeping
import CheckpointedLog.Proofs.Connector.Closing
import CheckpointedLog.Proofs.Connector.CommitOrder
import CheckpointedLog.Proofs.Connector.Commits
import CheckpointedLog.Proofs.Connector.FirstDiscovery
import CheckpointedLog.Proofs.Connector.Interleaving
import CheckpointedLog.Proofs.Connector.Lifecycle
import CheckpointedLog.Proofs.Connector.Opening
import CheckpointedLog.Proofs.Connector.Operations
import CheckpointedLog.Proofs.Connector.Ownership
import CheckpointedLog.Proofs.Connector.PeriodicDiscovery
import CheckpointedLog.Proofs.Connector.Progress
import CheckpointedLog.Proofs.Connector.Recovery
import CheckpointedLog.Proofs.Connector.Reopening
import CheckpointedLog.Proofs.Connector.Rescaling
import CheckpointedLog.Proofs.Connector.Restart
import CheckpointedLog.Proofs.Connector.Session
import CheckpointedLog.Proofs.Connector.Snapshot
import CheckpointedLog.Proofs.Connector.Step
import CheckpointedLog.Proofs.Connector.Stopping
import CheckpointedLog.Proofs.Connector.Subscription
import CheckpointedLog.Proofs.Discovery
import CheckpointedLog.Proofs.Discovery.Selection
import CheckpointedLog.Proofs.Except
import CheckpointedLog.Proofs.Fetch.Consistency
import CheckpointedLog.Proofs.Fetch.Delivery
import CheckpointedLog.Proofs.Fetch.Ending
import CheckpointedLog.Proofs.Fetch.Failure
import CheckpointedLog.Proofs.Fetch.Grounded
import CheckpointedLog.Proofs.Fetch.History
import CheckpointedLog.Proofs.Fetch.Onward
import CheckpointedLog.Proofs.Fetch.Order
import CheckpointedLog.Proofs.Fetch.Progress
import CheckpointedLog.Proofs.Fetch.Resumption
import CheckpointedLog.Proofs.Fetch.Rounds
import CheckpointedLog.Proofs.Fetch.Start
import CheckpointedLog.Proofs.Fetch.Step
import CheckpointedLog.Proofs.Files.Directories
import CheckpointedLog.Proofs.Files.FileProgram
import CheckpointedLog.Proofs.Files.FileSystem
import CheckpointedLog.Proofs.Files.Path
import CheckpointedLog.Proofs.Files.Replacement
import CheckpointedLog.Proofs.OffsetState
import CheckpointedLog.Proofs.Partition
import CheckpointedLog.Proofs.Pattern.Anchoring
import CheckpointedLog.Proofs.Pattern.Matching
import CheckpointedLog.Proofs.Pattern.Reading
import CheckpointedLog.Proofs.Connector.Playback
import CheckpointedLog.Proofs.Snapshot.Canonical
import CheckpointedLog.Proofs.Snapshot.Detection
import CheckpointedLog.Proofs.Snapshot.Extent
import CheckpointedLog.Proofs.Snapshot.Grammar
import CheckpointedLog.Proofs.Snapshot.Listing
import CheckpointedLog.Proofs.Snapshot.RoundTrip
import CheckpointedLog.Proofs.Snapshot.Store
import CheckpointedLog.Proofs.Snapshot.Wire
import CheckpointedLog.Proofs.SortedMap
import CheckpointedLog.Proofs.Text.Digits
import CheckpointedLog.Proofs.Text.Utf8
import CheckpointedLog.Snapshot.Format
import CheckpointedLog.Snapshot.Layout
import CheckpointedLog.Snapshot.Release
import CheckpointedLog.Snapshot.Store
import CheckpointedLog.Snapshot.Wire
import CheckpointedLog.SortedMap
import CheckpointedLog.SourceError
import CheckpointedLog.Text.CaseFolding
import CheckpointedLog.Text.Category
import CheckpointedLog.Text.Digits
import CheckpointedLog.Text.Script
import CheckpointedLog.Text.Units
import CheckpointedLog.Text.Utf8
import CheckpointedLog.Timeline
import CheckpointedLog.Yaml.Cursor
import CheckpointedLog.Yaml.Decode
import CheckpointedLog.Yaml.Node
import CheckpointedLog.Yaml.Scalar
import CheckpointedLog.Yaml.Token
