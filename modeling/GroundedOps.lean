import GroundedOps.Library.Scan
import GroundedOps.Library.Dict
import GroundedOps.Library.Delimited
import GroundedOps.Agent.CitationSoundness
import GroundedOps.Agent.RecordFence
import GroundedOps.Library.Program
import GroundedOps.Agent.SentConversation
import GroundedOps.Agent.GuardrailBounds
import GroundedOps.Agent.CycleKeys
import GroundedOps.Agent.EventProtocol
import GroundedOps.Agent.CostAccounting
import GroundedOps.Agent.CitedRecords
import GroundedOps.Agent.RegistryNumbering
import GroundedOps.Agent.Faithfulness
import GroundedOps.Llm.Conversation
import GroundedOps.Library.Sql
import GroundedOps.McpServer.InjectionSafety
import GroundedOps.McpServer.DateRanges
import GroundedOps.Library.SqlMeaning
import GroundedOps.McpServer.VisibleColumns
import GroundedOps.Library.Lists
import GroundedOps.Library.Utf8
import GroundedOps.Ingestion.Indexer
import GroundedOps.Ingestion.ChunkSpans
import GroundedOps.Ingestion.HeaderBoundaries
import GroundedOps.Ingestion.DocumentRows
import GroundedOps.Ingestion.Transactions
import GroundedOps.Ingestion.ConcurrentIngestion
import GroundedOps.Ingestion.Idempotence
import GroundedOps.Ingestion.Batches
import GroundedOps.Library.Transition
import GroundedOps.Retrieval.StoreSync
import GroundedOps.Retrieval.Service
import GroundedOps.Retrieval.CrashRecovery
import GroundedOps.Retrieval.ConcurrentSearch
import GroundedOps.Agent.ToolFailures
import GroundedOps.Library.FileTree
import GroundedOps.Eval.Reachability
import GroundedOps.Retrieval.FusionFairness
import GroundedOps.Retrieval.FilteredSearch
import GroundedOps.Eval.DocRanking
import GroundedOps.Eval.Ndcg
import GroundedOps.Eval.Percentile
import GroundedOps.Agent.ToolRecords
import GroundedOps.Agent.TokenCounting
import GroundedOps.Eval.BenchmarkIndex
import GroundedOps.Frontend.Renderers
import GroundedOps.Frontend.EventStream
import GroundedOps.Agent.Provenance
import GroundedOps.Llm.EchoAnswers
import GroundedOps.Agent.OfflineAgent
import GroundedOps.Api.ChatEndpoint
import GroundedOps.Frontend.ChatPage
import GroundedOps.Library.Relational
import GroundedOps.Db.Schema
import GroundedOps.Seed.Tables
import GroundedOps.Seed.Loader
import GroundedOps.Seed.LoadRuns
import GroundedOps.Library.Groups
import GroundedOps.Library.SqlGroups
import GroundedOps.Library.SqlLabels
import GroundedOps.McpServer.GroupCounts
import GroundedOps.McpServer.DrillDown
import GroundedOps.McpServer.RecordLookup
import GroundedOps.Security.Schema
import GroundedOps.McpServer.ToolSurface
import GroundedOps.McpServer.ToolResults
import GroundedOps.Agent.EntryOrigins
import GroundedOps.Agent.ServedTools
import GroundedOps.Agent.AgentProvenance
import GroundedOps.Seed.ServedRecords
