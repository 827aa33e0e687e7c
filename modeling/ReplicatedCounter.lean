import ReplicatedCounter.Lib.Coro
import ReplicatedCounter.Lib.Decimal
import ReplicatedCounter.Lib.DecimalOrder
import ReplicatedCounter.Lib.Fallible
import ReplicatedCounter.Lib.IntRange
import ReplicatedCounter.Lib.Lockstep
import ReplicatedCounter.Lib.Parties
import ReplicatedCounter.Lib.PrefixScan
import ReplicatedCounter.Lib.Programs
import ReplicatedCounter.Lib.PrefixRuns
import ReplicatedCounter.Lib.Ranked
import ReplicatedCounter.Lib.RemoteCall
import ReplicatedCounter.Lib.SortedMap
import ReplicatedCounter.Lib.Transition
import ReplicatedCounter.Lib.Voting
import ReplicatedCounter.Lib.Wire
import ReplicatedCounter.Lib.WriteBatch
import ReplicatedCounter.Persistence.KVStoreLite
import ReplicatedCounter.Persistence.TransactionalRocksKVStoreLite
import ReplicatedCounter.Paxos.Messages
import ReplicatedCounter.Paxos.LocalAcceptor
import ReplicatedCounter.Paxos.AcceptorHistory
import ReplicatedCounter.Paxos.RemoteAcceptor
import ReplicatedCounter.Paxos.CrashRecovery
import ReplicatedCounter.Paxos.Register
import ReplicatedCounter.Paxos.WriteOnceRegister
import ReplicatedCounter.Paxos.ChainAppender
import ReplicatedCounter.Paxos.SharedProposer
import ReplicatedCounter.Paxos.TrueWrites
import ReplicatedCounter.Paxos.LoneClient
import ReplicatedCounter.Paxos.ConcurrentAppends
import ReplicatedCounter.Paxos.SilentAcceptors
import ReplicatedCounter.Paxos.World
import ReplicatedCounter.Paxos.Proposers
import ReplicatedCounter.Paxos.Decree
import ReplicatedCounter.Paxos.UniqueBallots
import ReplicatedCounter.Paxos.CommittedChosen
import ReplicatedCounter.Paxos.DecreeInvariant
import ReplicatedCounter.Paxos.Agreement
import ReplicatedCounter.Paxos.Frames
import ReplicatedCounter.Metadata.InMemoryMetadataStore
import ReplicatedCounter.Metadata.ConfigChain
import ReplicatedCounter.Metadata.Routing
import ReplicatedCounter.Metadata.StateMachine
import ReplicatedCounter.Metadata.Replication
import ReplicatedCounter.Metadata.TwoIndexes
import ReplicatedCounter.Metadata.AcceptorSet
import ReplicatedCounter.Metadata.ConcurrentTasks
import ReplicatedCounter.Metadata.CompareAndAppend
import ReplicatedCounter.Log.OrderedCompletionQueue
import ReplicatedCounter.Log.LateAdds
import ReplicatedCounter.Log.CompletionOrder
import ReplicatedCounter.Log.QuorumWait
import ReplicatedCounter.Log.RemoteProxies
import ReplicatedCounter.Log.Replica
import ReplicatedCounter.Log.RocksNanoLog
import ReplicatedCounter.Log.RocksReplica
import ReplicatedCounter.Log.NanoLogAgreement
import ReplicatedCounter.Log.SealCut
import ReplicatedCounter.Log.SealPermanence
import ReplicatedCounter.Log.SealedMajority
import ReplicatedCounter.Log.Trim
import ReplicatedCounter.Log.Watermark
import ReplicatedCounter.Log.Sequencer
import ReplicatedCounter.Log.System
import ReplicatedCounter.Log.SharedSequencer
import ReplicatedCounter.Log.SequencerPerVersion
import ReplicatedCounter.Log.FailureDetector
import ReplicatedCounter.Log.InstalledViews
import ReplicatedCounter.Log.StartedVersions
import ReplicatedCounter.Log.Invariant
import ReplicatedCounter.Log.Steps
import ReplicatedCounter.Log.Reachable
import ReplicatedCounter.Log.Effects
import ReplicatedCounter.Log.FlushedAppends
import ReplicatedCounter.Log.Guarantees
import ReplicatedCounter.Log.Durability
import ReplicatedCounter.Log.RealTimeOrder
import ReplicatedCounter.Log.Reads
import ReplicatedCounter.Log.Versions
import ReplicatedCounter.StateMachine.VirtualLogStateMachine
import ReplicatedCounter.StateMachine.Pipeline
import ReplicatedCounter.StateMachine.FailingApply
import ReplicatedCounter.StateMachine.Cluster
import ReplicatedCounter.StateMachine.Application
import ReplicatedCounter.StateMachine.DrainedPipeline
import ReplicatedCounter.StateMachine.Bootstrap
import ReplicatedCounter.Counter.CounterApp
import ReplicatedCounter.Counter.Snapshot
import ReplicatedCounter.Counter.ReplicaState
import ReplicatedCounter.StateMachine.SequencedLog
import ReplicatedCounter.StateMachine.RocksTxnApplicator
import ReplicatedCounter.StateMachine.SpeculativeTxns
import ReplicatedCounter.StateMachine.RocksStateMachine
import ReplicatedCounter.Counter.LinearizableReads
import ReplicatedCounter.MyDb.TableRow
import ReplicatedCounter.MyDb.KeySerializer
import ReplicatedCounter.MyDb.RowSerializer
import ReplicatedCounter.MyDb.QueryExecutor
import ReplicatedCounter.MyDb.LimitedScan
import ReplicatedCounter.MyDb.InsertErrors
import ReplicatedCounter.MyDb.QueryPlanner
import ReplicatedCounter.MyDb.SchemaStore
import ReplicatedCounter.MyDb.Rows
import ReplicatedCounter.MyDb.RowMap
import ReplicatedCounter.MyDb.SecondaryIndexes
import ReplicatedCounter.MyDb.KeyTokens
import ReplicatedCounter.MyDb.TokenIndex
import ReplicatedCounter.MyDb.KeyRoundTrip
import ReplicatedCounter.MyDb.KeyOrder
import ReplicatedCounter.MyDb.RowCodec
import ReplicatedCounter.MyDb.TableScan
import ReplicatedCounter.MyDb.TableIds
import ReplicatedCounter.MyDb.PagedScan
import ReplicatedCounter.MyDb.RequestTransformer
import ReplicatedCounter.MyDb.DbImpl
import ReplicatedCounter.MyDb.Conditions
import ReplicatedCounter.MyDb.ConditionalUpdate
import ReplicatedCounter.MyDb.FailedRequests
import ReplicatedCounter.MyDb.KeySpaces
import ReplicatedCounter.Lib.Links
import ReplicatedCounter.Log.InMemoryWatermark
import ReplicatedCounter.Counter.BatchAtomicity
import ReplicatedCounter.Counter.RunningTotals
import ReplicatedCounter.Counter.CallerTotals
import ReplicatedCounter.Counter.ClusterTotals
import ReplicatedCounter.MyDb.FilterMeaning
import ReplicatedCounter.MyDb.ChunkedTables
import ReplicatedCounter.MyDb.RequestedColumns
import ReplicatedCounter.MyDb.GetRow
import ReplicatedCounter.MyDb.AddedRows
import ReplicatedCounter.MyDb.TxnCoordinator
import ReplicatedCounter.MyDb.Restarts
import ReplicatedCounter.MyDb.RowTable
import ReplicatedCounter.MyDb.TableRequests
import ReplicatedCounter.MyDb.ServedTables
import ReplicatedCounter.MyDb.Experimental.Models
import ReplicatedCounter.MyDb.Experimental.Dfs
import ReplicatedCounter.MyDb.Experimental.WaitForGraph
import ReplicatedCounter.MyDb.Experimental.LockRun
import ReplicatedCounter.MyDb.Experimental.LockOrder
import ReplicatedCounter.MyDb.Experimental.WaitSlots
