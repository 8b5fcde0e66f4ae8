import DasIndexer.Sql.Truth
import DasIndexer.Sql.Table
import DasIndexer.Sql.Query
import DasIndexer.Sql.Session
import DasIndexer.Sql.Like
import DasIndexer.Sql.Lexer
import DasIndexer.Lib.LastWriter
import DasIndexer.Lib.StampedUpsert
import DasIndexer.Lib.LatestRows
import DasIndexer.Lib.ChangedOnly
import DasIndexer.Lib.CursorPages
import DasIndexer.Lib.Fallible
import DasIndexer.Lib.Followers
import DasIndexer.Lib.GuardedRuns
import DasIndexer.Lib.Base58
import DasIndexer.Lib.Windows
import DasIndexer.Lib.LittleEndian
import DasIndexer.Lib.OffsetPages
import DasIndexer.Lib.Stages
import DasIndexer.Lib.NextPages
import DasIndexer.Schema.Values
import DasIndexer.Schema.Documents
import DasIndexer.Schema.Tables
import DasIndexer.Blockbuster.Instruction
import DasIndexer.Blockbuster.Bubblegum
import DasIndexer.Blockbuster.Provenance
import DasIndexer.Blockbuster.Ordering
import DasIndexer.Blockbuster.Inscriptions
import DasIndexer.Bubblegum.Db
import DasIndexer.Bubblegum.HandleTransaction
import DasIndexer.Bubblegum.Handlers
import DasIndexer.Bubblegum.Plan
import DasIndexer.Bubblegum.Atomicity
import DasIndexer.Bubblegum.Barrier
import DasIndexer.Bubblegum.Cells
import DasIndexer.Bubblegum.Convergence
import DasIndexer.Bubblegum.Concurrent
import DasIndexer.Lib.HeapTree
import DasIndexer.Lib.IndexMap
import DasIndexer.Dao.Scopes
import DasIndexer.Dao.Assembled
import DasIndexer.Dao.NameSearch
import DasIndexer.Dao.Pages
import DasIndexer.Dao.Search
import DasIndexer.Dao.JoinedRows
import DasIndexer.Dao.SearchSemantics
import DasIndexer.Dao.SearchExact
import DasIndexer.Dao.SearchCurrent
import DasIndexer.Dao.SingleAndBatch
import DasIndexer.Dao.CreatorLists
import DasIndexer.Bubblegum.CreatorList
import DasIndexer.Accounts.CreatorList
import DasIndexer.Dapi.Pagination
import DasIndexer.Dapi.ChangeLogs
import DasIndexer.Dapi.ServedProofs
import DasIndexer.Dapi.ConcurrentProofs
import DasIndexer.Dapi.BatchProofs
import DasIndexer.Dapi.TokenAccounts
import DasIndexer.Dapi.ProofIndexes
import DasIndexer.Grpc.Cursor
import DasIndexer.Grpc.Stream
import DasIndexer.Grpc.Redrive
import DasIndexer.Grpc.Replay
import DasIndexer.Grpc.Convert
import DasIndexer.Grpc.Guard
import DasIndexer.Grpc.Connections
import DasIndexer.Grpc.Downloader
import DasIndexer.Grpc.Reindex
import DasIndexer.Grpc.StoredUrl
import DasIndexer.Grpc.Hosts
import DasIndexer.Ops.Crawl
import DasIndexer.Ops.TreeGaps
import DasIndexer.Ops.TreeStatus
import DasIndexer.Backfill.Backfiller
import DasIndexer.Backfill.CleanUp
import DasIndexer.Backfill.MissingData
import DasIndexer.Backfill.OneTree
import DasIndexer.Backfill.PlugGap
import DasIndexer.Tasks.Runner
import DasIndexer.Ingester.Acks
import DasIndexer.Accounts.AssetUpserts
import DasIndexer.Accounts.Tokens
import DasIndexer.Accounts.Extensions
import DasIndexer.Accounts.Closed
import DasIndexer.Accounts.TokenMetadata
import DasIndexer.Accounts.Editions
import DasIndexer.Accounts.EmptyMetadata
import DasIndexer.Accounts.PluginsJson
import DasIndexer.Accounts.PluginKeys
import DasIndexer.Accounts.MplCore
import DasIndexer.Accounts.AgentRegistry
import DasIndexer.Accounts.AgentOrder
import DasIndexer.Accounts.Ownership
import DasIndexer.Accounts.SlotUpdated
import DasIndexer.Accounts.MintOrder
import DasIndexer.Accounts.Authority
import DasIndexer.Accounts.AuthorityStamps
import DasIndexer.Accounts.Burnt
import DasIndexer.Accounts.Members
import DasIndexer.Accounts.CoreGroups
import DasIndexer.Ops.MessengerPool
import DasIndexer.Ops.Purge
import DasIndexer.Ops.BackfillRun
import DasIndexer.Backfill.FromStart
import DasIndexer.Dapi.Fallback
import DasIndexer.Dapi.AssetHistory
import DasIndexer.Dapi.SameAnswers
