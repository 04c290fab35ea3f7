import TronDB.Core.EdgeCells
import TronDB.Core.IndexLookups
import TronDB.Core.IndexedFetch
import TronDB.Core.Like
import TronDB.Core.Separation
import TronDB.Core.SortOrder
import TronDB.Core.Timestamps
import TronDB.Engine.AllOrNothing
import TronDB.Engine.Converses
import TronDB.Engine.Dangling
import TronDB.Engine.Failure
import TronDB.Engine.IndexRuns
import TronDB.Engine.Isolation
import TronDB.Engine.JoinRows
import TronDB.Engine.LegacyTraverse
import TronDB.Engine.LostUpdate
import TronDB.Engine.Numbered
import TronDB.Engine.Postings
import TronDB.Engine.PostingsFollow
import TronDB.Engine.ReadBack
import TronDB.Engine.SearchFresh
import TronDB.Engine.SearchWhere
import TronDB.Engine.Shape
import TronDB.Engine.SmallIndex
import TronDB.Engine.SnapshotRuns
import TronDB.Engine.Staleness
import TronDB.Engine.Stranded
import TronDB.Engine.Structural
import TronDB.Engine.Sweeping
import TronDB.Engine.Tombstones
import TronDB.Engine.TxTime
import TronDB.Engine.WhereAgree
import TronDB.Lib.Lexing
import TronDB.Routing.AffinityReplay
import TronDB.Routing.Completed
import TronDB.Routing.Interrupted
import TronDB.Server.Acknowledged
import TronDB.Server.Forwarding
import TronDB.Server.LocationRuns
import TronDB.Tql.Comments
import TronDB.Tql.Quoting
import TronDB.Tql.Token
import TronDB.Wal.Checkpoint
import TronDB.Wal.Concurrent
import TronDB.Wal.Lsn
import TronDB.Wal.TornTail
import TronDB.Wal.Truncation
import TronDB.Routing.Membership
import TronDB.Routing.FailedMoves
import TronDB.Routing.IndexedMoves
import TronDB.Server.Scatter
import TronDB.Server.WaitForAck
import TronDB.Routing.RoutedInsert
import TronDB.Tql.Counts
import TronDB.Tql.Precedence
import TronDB.Core.ExactPolar
import TronDB.Vectoriser.Batching
import TronDB.Engine.Backup
import TronDB.Routing.Sweeper
import TronDB.Engine.Infer
import TronDB.Routing.Cycles
import TronDB.Engine.IoPaths
import TronDB.Engine.LocationSnapshots
import TronDB.Proto.Response
import TronDB.Server.Follower
import TronDB.Server.Polling
import TronDB.Server.Relay
import TronDB.Core.Answers
import TronDB.Server.Vectorisers
