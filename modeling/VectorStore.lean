import VectorStore.Foundation.Register
import VectorStore.Foundation.Run
import VectorStore.Foundation.FiniteMap
import VectorStore.Timestamp
import VectorStore.Value
import VectorStore.Table.Ids
import VectorStore.Table.Column
import VectorStore.Table.Index
import VectorStore.Table.Table
import VectorStore.Table.Store
import VectorStore.Table.Partitions
import VectorStore.Rows.Row
import VectorStore.Table.Placement
import VectorStore.Table.IndexUpdate
import VectorStore.Rows.Columns
import VectorStore.Rows.Rows
import VectorStore.Rows.Reserve
import VectorStore.Rows.Simulation
import VectorStore.Rows.Steps
import VectorStore.Rows.World
import VectorStore.Results.Refinement
import VectorStore.Results.LastWriteWins
import VectorStore.Results.Convergence
import VectorStore.Results.Commute
import VectorStore.Results.RightPartition
import VectorStore.Results.Durability
import VectorStore.Metadata
import VectorStore.Results.Allocation
import VectorStore.Read.DbValue
import VectorStore.Read.ParseValues
import VectorStore.Rows.Global
import VectorStore.Results.WriteTime
import VectorStore.Cdc.Consumer
import VectorStore.Cdc.Replication
import VectorStore.Cdc.Snapshot
import VectorStore.Results.FullScanCdc
import VectorStore.Cdc.Actor
import VectorStore.Cdc.Supervision
import VectorStore.Results.Restart
import VectorStore.Results.Supervision
import VectorStore.Read.FullScan
import VectorStore.Results.ScanCompleteness
import VectorStore.Search.Compare
import VectorStore.Search.Restriction
import VectorStore.Search.Routing
import VectorStore.Search.TableSearch
import VectorStore.Results.Routing
import VectorStore.Results.FastPath
import VectorStore.Foundation.ModeLock
import VectorStore.Results.Permits
import VectorStore.Foundation.Deferred
import VectorStore.Worker
import VectorStore.VsIndex.Actor
import VectorStore.VsIndex.Placed
import VectorStore.VsIndex.Usearch
import VectorStore.VsIndex.Steps
import VectorStore.VsIndex.Locking
import VectorStore.VsIndex.Settling
import VectorStore.VsIndex.Counting
import VectorStore.Results.InOrder
import VectorStore.VsIndex.Reserving
import VectorStore.Results.Reservation
import VectorStore.VsIndex.Diskann
import VectorStore.VsIndex.DiskannSteps
import VectorStore.VsIndex.DiskannSettling
import VectorStore.Results.Overtaking
import VectorStore.FtsIndex.Documents
import VectorStore.FtsIndex.Tantivy
import VectorStore.FtsIndex.TantivySteps
import VectorStore.FtsIndex.Guards
import VectorStore.Results.Guards
import VectorStore.Results.Searchable
import VectorStore.Node.DiscoveredIndex
import VectorStore.Node.NodeState
import VectorStore.Results.IndexStatus
import VectorStore.Results.InitialIndexes
import VectorStore.Node.Monitor
import VectorStore.Results.Reconciled
import VectorStore.Node.Connection
import VectorStore.Results.Reconnected
import VectorStore.Read.Query
import VectorStore.Results.Alignment
import VectorStore.Results.AlternatorColumns
import VectorStore.Foundation.Intervals
import VectorStore.Read.TokenRing
import VectorStore.Results.TokenRanges
import VectorStore.Rows.Identity
import VectorStore.Cdc.Checkpoint
import VectorStore.Results.Progress
import VectorStore.FtsIndex.Query
import VectorStore.Results.Highlight
import VectorStore.Node.Simulator
import VectorStore.Results.Simulator
import VectorStore.Foundation.MaxBy
import VectorStore.Search.BestIndex
import VectorStore.Results.BestIndex
import VectorStore.VsIndex.GraphStore
import VectorStore.VsIndex.VectorSource
import VectorStore.Results.BatchedReads
import VectorStore.Results.GraphLifeCycle
import VectorStore.Foundation.Bits
import VectorStore.Results.Hamming
import VectorStore.Foundation.Bytes
import VectorStore.Table.VecChunks
import VectorStore.Results.ChunkArray
import VectorStore.VsIndex.Collect
import VectorStore.Results.Answers
import VectorStore.Foundation.Lexicographic
import VectorStore.Results.FilterSemantics
import VectorStore.Foundation.Comparison
import VectorStore.Results.TotalOrder
import VectorStore.Foundation.Decimal
import VectorStore.Rows.StoredKeys
import VectorStore.Results.Normalization
import VectorStore.Results.Panics
import VectorStore.Results.Identifiers
import VectorStore.Key.Encoding
import VectorStore.Results.FailedUpsert
import VectorStore.Key.Values
import VectorStore.Results.KeyCodec
import VectorStore.FtsIndex.Search
import VectorStore.Results.AnswersAtRest
import VectorStore.Results.DatabaseToIndex
import VectorStore.Results.SearchAtRest
import VectorStore.Pipeline.Additions
import VectorStore.Results.SearchWhileWriting
import VectorStore.Pipeline.MonitorItems
import VectorStore.Results.Accounts
import VectorStore.Search.PostIndexAnn
import VectorStore.Results.PostIndexAnn
