import XChainExplorer.Lib.Runs
import XChainExplorer.Lib.Page
import XChainExplorer.Lib.Positional
import XChainExplorer.Lib.ShiftRegister
import XChainExplorer.Lib.KeyedFold
import XChainExplorer.Lib.KeyedMap
import XChainExplorer.Lib.Lru
import XChainExplorer.Lib.OnDuplicate
import XChainExplorer.Lib.JsNumber
import XChainExplorer.Lib.UniqueTable
import XChainExplorer.Lib.UriComponent
import XChainExplorer.Lib.Quorum
import XChainExplorer.Lib.JoinedFields
import XChainExplorer.Lib.ParentChain
import XChainExplorer.Lib.NetIp
import XChainExplorer.Chain.Tables
import XChainExplorer.Db.TipProbe
import XChainExplorer.Db.Watch
import XChainExplorer.Db.ActionCache
import XChainExplorer.Db.ResultCache
import XChainExplorer.Db.MempoolFeed
import XChainExplorer.Db.ReorgGen
import XChainExplorer.Ws.CoinState
import XChainExplorer.Ws.Poll
import XChainExplorer.Ws.PollSteps
import XChainExplorer.Ws.PollShape
import XChainExplorer.Ws.History
import XChainExplorer.Ws.Consumer
import XChainExplorer.Ws.Growth
import XChainExplorer.Ws.PollAlone
import XChainExplorer.Ws.NoDuplicate
import XChainExplorer.Ws.PairCursor
import XChainExplorer.Ws.LatchPasses
import XChainExplorer.Ws.LatchFeed
import XChainExplorer.Ws.LatchRuns
import XChainExplorer.Ws.LatchDrain
import XChainExplorer.Ws.MempoolDiff
import XChainExplorer.Ws.ChannelKeys
import XChainExplorer.Ws.ChannelManager
import XChainExplorer.Lib.Journal
import XChainExplorer.Ws.Fanout
import XChainExplorer.Ws.FanoutSteps
import XChainExplorer.Ws.RowDelivery
import XChainExplorer.Ws.OnceSubscriptions
import XChainExplorer.Hub.HubLog
import XChainExplorer.Hub.Sync
import XChainExplorer.Hub.Mirror
import XChainExplorer.Hub.PassSteps
import XChainExplorer.Hub.ApplyLatch
import XChainExplorer.Hub.FailClosed
import XChainExplorer.Hub.HeightCertificate
import XChainExplorer.Hub.RowUpserts
import XChainExplorer.Hub.MatchConvergence
import XChainExplorer.Consensus.StakeWeightedQuorum
import XChainExplorer.Consensus.StakeQuorum
import XChainExplorer.Consensus.QuorumSafety
import XChainExplorer.Consensus.QuorumOrder
import XChainExplorer.Hub.Retractions
import XChainExplorer.Hub.GenerationFence
import XChainExplorer.Hub.CheckpointLineage
import XChainExplorer.Hub.MatchRetractions
import XChainExplorer.Hub.OracleRetractions
import XChainExplorer.Hub.PriceRefloor
import XChainExplorer.Hub.PriceFloor
import XChainExplorer.Hub.PriceReconciliation
import XChainExplorer.Hub.WatermarkAdvance
import XChainExplorer.Hub.DrainHoles
import XChainExplorer.Hub.CapabilityHolds
import XChainExplorer.Hub.OwedRepages
import XChainExplorer.Hub.CapabilityBarrier
import XChainExplorer.Hub.BarrierRuns
import XChainExplorer.Explorer.Proofs
import XChainExplorer.Explorer.CheckpointQuorum
import XChainExplorer.Explorer.CheckpointReads
import XChainExplorer.Explorer.CheckpointBytes
import XChainExplorer.Explorer.QuorumAgreement
import XChainExplorer.Lib.Cursor
import XChainExplorer.Lib.GroupPage
import XChainExplorer.Explorer.KeysetPaging
import XChainExplorer.Explorer.ListTables
import XChainExplorer.Explorer.BoundaryFilters
import XChainExplorer.Explorer.ListPaging
import XChainExplorer.Explorer.PageOrder
import XChainExplorer.Explorer.PageBoundaries
import XChainExplorer.Lib.Sha256
import XChainExplorer.Lib.Hex
import XChainExplorer.Lib.HashPath
import XChainExplorer.Lib.SparseTree
import XChainExplorer.Consensus.MerklePrimitives
import XChainExplorer.Consensus.SparseMerkle
import XChainExplorer.Consensus.CompressedProofs
import XChainExplorer.Consensus.FixedMerkle
import XChainExplorer.Consensus.BlockLeaves
import XChainExplorer.Explorer.ActionProofs
import XChainExplorer.Consensus.SmtKeys
import XChainExplorer.Explorer.StateDescent
import XChainExplorer.Explorer.StoredLeaf
import XChainExplorer.Explorer.StateProofs
import XChainExplorer.Explorer.ListHeads
import XChainExplorer.Federation.AnchorConfirmations
import XChainExplorer.Hub.PriceBatches
import XChainExplorer.Mirror.KeyedStart
import XChainExplorer.Consensus.CanonicalSums
import XChainExplorer.Http.SsrfGuard
import XChainExplorer.Explorer.AddressSpellings
import XChainExplorer.Db.OrderInfo
import XChainExplorer.Explorer.ProjectRosters
import XChainExplorer.Consensus.AdmitBlocks
import XChainExplorer.Lib.IntervalPage
import XChainExplorer.Federation.PriceRounds
import XChainExplorer.Db.TickNames
import XChainExplorer.Lib.WorkerPool
import XChainExplorer.Explorer.BatchReads
import XChainExplorer.Hub.CapabilityRetry
import XChainExplorer.Explorer.HistoryPage
import XChainExplorer.Lib.Reading
import XChainExplorer.Lib.SharedPool
import XChainExplorer.Db.PagePreload
import XChainExplorer.Db.PageRuns
import XChainExplorer.Lib.Prepared
import XChainExplorer.Explorer.TwoPartyLanes
import XChainExplorer.Lib.Joins
import XChainExplorer.Lib.Scanning
import XChainExplorer.Db.CountSql
import XChainExplorer.Db.CountText
import XChainExplorer.Db.CountJoins
import XChainExplorer.Lib.PausedClock
import XChainExplorer.Lib.Tally
import XChainExplorer.Hub.HubSelector
import XChainExplorer.Hub.Failover
import XChainExplorer.Hub.StallDetector
import XChainExplorer.Lib.JsonTree
import XChainExplorer.Hub.ConfigSync
import XChainExplorer.Hub.SnapshotReconciliation
import XChainExplorer.Hub.ChainIdentity
import XChainExplorer.Lib.KeySlice
import XChainExplorer.Db.PageIds
