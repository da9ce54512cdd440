import OpenInstrument.Datastore.Background
import OpenInstrument.Datastore.Block
import OpenInstrument.Datastore.BlockFile
import OpenInstrument.Datastore.BlockRoundTrip
import OpenInstrument.Datastore.ConcurrentAdds
import OpenInstrument.Datastore.ConcurrentReader
import OpenInstrument.Datastore.Conservation
import OpenInstrument.Datastore.Crash
import OpenInstrument.Datastore.FailedCompaction
import OpenInstrument.Datastore.FlushRetry
import OpenInstrument.Datastore.Invariant
import OpenInstrument.Datastore.Joining
import OpenInstrument.Datastore.LeftOver
import OpenInstrument.Datastore.LogLocks
import OpenInstrument.Datastore.Merging
import OpenInstrument.Datastore.Reader
import OpenInstrument.Datastore.Recovery
import OpenInstrument.Datastore.Restart
import OpenInstrument.Datastore.Routing
import OpenInstrument.Datastore.Runs
import OpenInstrument.Datastore.Searching
import OpenInstrument.Datastore.Sound
import OpenInstrument.Datastore.SplitPasses
import OpenInstrument.Datastore.Splitting
import OpenInstrument.Datastore.Steps
import OpenInstrument.Datastore.Store
import OpenInstrument.Get
import OpenInstrument.GetCells
import OpenInstrument.GetFrame
import OpenInstrument.GetReading
import OpenInstrument.Go.HashRing
import OpenInstrument.Go.StoreClient
import OpenInstrument.Go.Text
import OpenInstrument.Interpolation
import OpenInstrument.Library.Addressed
import OpenInstrument.Library.Base64
import OpenInstrument.Library.Boundaries
import OpenInstrument.Library.Bounded
import OpenInstrument.Library.Calendar
import OpenInstrument.Library.Changes
import OpenInstrument.Library.Channel
import OpenInstrument.Library.Circle
import OpenInstrument.Library.Delivery
import OpenInstrument.Library.Fallible
import OpenInstrument.Library.FanOut
import OpenInstrument.Library.Goroutines
import OpenInstrument.Library.Grid
import OpenInstrument.Library.Grouping
import OpenInstrument.Library.Handover
import OpenInstrument.Library.Interleaving
import OpenInstrument.Library.Keyed
import OpenInstrument.Library.LittleEndian
import OpenInstrument.Library.LockOrder
import OpenInstrument.Library.Merge
import OpenInstrument.Library.Monitor
import OpenInstrument.Library.OrderedMap
import OpenInstrument.Library.Paths
import OpenInstrument.Library.Runs
import OpenInstrument.Library.Scan
import OpenInstrument.Library.Selection
import OpenInstrument.Library.SortedCircle
import OpenInstrument.Library.Windows
import OpenInstrument.Library.Wire
import OpenInstrument.ListVariables
import OpenInstrument.MergeStreams
import OpenInstrument.MutationWindows
import OpenInstrument.Mutations
import OpenInstrument.OpenFiles
import OpenInstrument.Proto
import OpenInstrument.ProtoFile
import OpenInstrument.ProtoFileLog
import OpenInstrument.ProtoFileRoundTrip
import OpenInstrument.ProtoWire
import OpenInstrument.PruningSoundness
import OpenInstrument.RecordLogging
import OpenInstrument.ResponseLimit
import OpenInstrument.Server.Acknowledge
import OpenInstrument.Server.Aggregation
import OpenInstrument.Server.AggregationLabels
import OpenInstrument.Server.BackupNode
import OpenInstrument.Server.Base64
import OpenInstrument.Server.BucketFunctions
import OpenInstrument.Server.Buckets
import OpenInstrument.Server.Calculation
import OpenInstrument.Server.ClockDrift
import OpenInstrument.Server.Cord
import OpenInstrument.Server.CordContent
import OpenInstrument.Server.CordLines
import OpenInstrument.Server.CordReading
import OpenInstrument.Server.Damage
import OpenInstrument.Server.DelayedExecutor
import OpenInstrument.Server.DiskDatastore
import OpenInstrument.Server.Durations
import OpenInstrument.Server.Flushing
import OpenInstrument.Server.FormatAgreement
import OpenInstrument.Server.Forwarding
import OpenInstrument.Server.GmTime
import OpenInstrument.Server.HandleAdd
import OpenInstrument.Server.HandleGet
import OpenInstrument.Server.HandleGetSafety
import OpenInstrument.Server.HandleList
import OpenInstrument.Server.HashRing
import OpenInstrument.Server.HttpChunks
import OpenInstrument.Server.HttpConnection
import OpenInstrument.Server.HttpHeaders
import OpenInstrument.Server.HttpRequests
import OpenInstrument.Server.IndexedFile
import OpenInstrument.Server.LineOutput
import OpenInstrument.Server.LogCoverage
import OpenInstrument.Server.LogStreams
import OpenInstrument.Server.Lookup3
import OpenInstrument.Server.Messages
import OpenInstrument.Server.ProtoStream
import OpenInstrument.Server.ProtoStreamRoundTrip
import OpenInstrument.Server.QueryStrings
import OpenInstrument.Server.Queue
import OpenInstrument.Server.RangeReads
import OpenInstrument.Server.RecordLog
import OpenInstrument.Server.Reindexing
import OpenInstrument.Server.Replay
import OpenInstrument.Server.ServeLocalFile
import OpenInstrument.Server.Socket
import OpenInstrument.Server.StaticFiles
import OpenInstrument.Server.StoreConfig
import OpenInstrument.Server.StreamIterator
import OpenInstrument.Server.Trie
import OpenInstrument.Server.TrieIteration
import OpenInstrument.Server.TrieMap
import OpenInstrument.Server.UniformSeries
import OpenInstrument.Server.Variable
import OpenInstrument.Server.VariableRoundTrip
import OpenInstrument.StoreManager
import OpenInstrument.StreamGroups
import OpenInstrument.StreamWriter
import OpenInstrument.Variable
import OpenInstrument.VariableRoundTrip
import OpenInstrument.VariableSearch
import OpenInstrument.GetSafety
